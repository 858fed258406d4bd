import CSharpKit.Proofs.Syntax.GrammarReplays
import CSharpKit.Proofs.Syntax.OperatorReading
import CSharpKit.Proofs.Syntax.WholeFragments

/-!
# Expressions without an operation

A text that is read as an expression, but as no operation, was read by the reader of operands
with prefixes alone. What that reader makes of the text, it makes of the same tokens before a
semicolon.
-/

namespace CSharpKit.Syntax

open Syntax.Tree CSharpKit.Syntax.Parser
open Lookahead (Alike Closes)

/-! ## Fragments without complaints -/

/-- A reader of a fragment that was returned had nothing to complain about, and came to the end
of the text. The fragment is the first node that was read. -/
theorem parseFragment_ok {what : Grammar.Rules → Parser Unit} {text : String} {s : ParserState}
    {new : Forest} {g : Node}
    (hs : s = ((what (Grammar.within (nestingBound (Token.lex text)))).run (openFile text)).2)
    (hext : Extends (openFile text) s new) (h : parseFragment what text = .ok g) :
    s.errors = [] ∧ Lookahead.kind s.rest = .eof ∧ new.findSome? Tree.node? = some g := by
  obtain ⟨hclean, hfound⟩ := parseFragment_eq_ok_iff.mp h
  obtain ⟨herrors, hend, hchildren, -⟩ := fragment_of_clean hs hext hclean
  rw [hchildren, List.findSome?_append, findSome?_node?_of_gap (Lookahead.isGap_triviaAhead _),
    Option.or_none] at hfound
  exact ⟨herrors, hend, hfound⟩

/-- The first node of trees in a row is the only one that is no trivia. -/
theorem findSome?_node?_of_bare {new : Forest} {k : Kind} {cs : Forest}
    (h : bare new = [.node k cs]) : new.findSome? Tree.node? = some ⟨k, cs⟩ := by
  obtain ⟨front, back, rfl, hfront, -⟩ := Tree.exists_of_bare_eq_singleton h
  rw [List.findSome?_append, findSome?_node?_of_gap hfront]
  rfl

/-- Trees that were read from a token on that is no trivia, and close with one, have no trivia
around them. -/
theorem Parser.Extends.eq_singleton {s s' : ParserState} {new : Forest} {t : Tree}
    (hext : Extends s s' new) (hbare : bare new = [t])
    (hahead : Lookahead.significant s.rest = s.rest) (hclose : ClosesPlain new) : new = [t] := by
  obtain ⟨front, back, rfl, hfront, hback⟩ := Tree.exists_of_bare_eq_singleton hbare
  obtain ⟨tokens, hrest, hleaves, -⟩ := hext.taken
  have hfrontNil : front = [] := by
    cases front with
    | nil => rfl
    | cons u front =>
        obtain ⟨k, text, rfl, hk⟩ := hfront u List.mem_cons_self
        obtain ⟨first, tokens, rfl, hfirst, -⟩ := List.map_eq_cons_iff.mp hleaves.symm
        have htrivia : first.isTrivia = true := by
          rw [Token.isTrivia, show first.kind = k from congrArg Prod.fst hfirst]
          exact hk
        have hnot := not_isTrivia_of_significant (hahead.trans hrest)
        rw [htrivia] at hnot
        cases hnot
  subst hfrontNil
  rw [List.nil_append, List.cons.injEq]
  refine ⟨rfl, List.eq_nil_iff_forall_not_mem.mpr fun u hu => ?_⟩
  have hne : back ≠ [] := List.ne_nil_of_mem hu
  obtain ⟨k, text, hlast, hk⟩ := hback _ (List.getLast_mem hne)
  have hplain : k.isTrivia = false := by
    refine hclose (k, text) ?_
    have hsplit : [] ++ t :: back = t :: back.dropLast ++ [.token k text] := by
      rw [← hlast, List.cons_append, List.dropLast_append_getLast, List.nil_append]
    rw [hsplit, forestLeaves_append]
    simp [forestLeaves, leaves]
  rw [hk] at hplain
  cases hplain

/-- A run without a complaint ends where its trees and the tokens that are left say. -/
theorem Parser.Extends.eq_reading {s s' : ParserState} {new : Forest} (hext : Extends s s' new)
    (herrors : s'.errors = s.errors) : s' = reading s new s'.rest := by
  obtain ⟨hdone, hopened, hfaults, -⟩ := hext
  obtain ⟨rest, ⟨done, opened⟩, errors, faults⟩ := s'
  simp only at hdone hopened hfaults herrors
  subst hdone hopened hfaults herrors
  rfl

theorem endsOnce_lex (text : String) : EndsOnce (Token.lex text) := by
  obtain ⟨last, hlex, -, -, hcontents⟩ := Token.lex_eq_contents text
  intro front t rest heq ht
  rw [hlex] at heq
  rcases List.append_eq_append_iff.mp heq with ⟨more, rfl, hmore⟩ | ⟨more, hmore, hrest⟩
  · cases more with
    | nil => exact (List.cons.inj hmore).2.symm
    | cons u more => simp at hmore
  · cases more with
    | nil => exact (List.cons.inj hrest).2
    | cons u more =>
        obtain ⟨rfl, -⟩ := List.cons.inj hrest
        exact absurd ht (hcontents t (by simp [hmore])).kind_ne_eof

/-! ## Trivia in front -/

namespace Parser

variable {α β : Type}

/-- A parser moves the trivia ahead to the trees first. -/
def Flushes (p : Parser α) : Prop := ∀ s, p.run s = p.run (flushTrivia.run s).2

namespace Flushes

variable {p q : Parser α}

theorem flushTrivia : Flushes flushTrivia := by
  intro s
  rw [run_flushTrivia s, run_flushTrivia, rest_reading, triviaAhead_significant,
    significant_significant, reading_reading, List.append_nil]

theorem bind (hp : Flushes p) (f : α → Parser β) : Flushes (p >>= f) := by
  intro s
  rw [StateT.run_bind, StateT.run_bind, ← hp s]

theorem ask_bind {question : List Token → α} {f : α → Parser β}
    (hquestion : ∀ ts, question (Lookahead.significant ts) = question ts)
    (hf : ∀ a, Flushes (f a)) : Flushes (ask question >>= f) := by
  intro s
  rw [run_ask_bind, run_ask_bind, rest_flushTrivia, hquestion]
  exact hf _ s

theorem ite {c : Prop} [Decidable c] (hp : Flushes p) (hq : Flushes q) :
    Flushes (if c then p else q) := by
  split
  · exact hp
  · exact hq

end Flushes

end Parser

namespace Grammar

theorem flushes_unary (rules : Rules) : Flushes (unary rules) := by
  have hnode : ∀ body, Flushes (node .prefixUnaryExpression body) := fun _ => .bind .flushTrivia _
  have hoperand : Flushes (operand rules) := .bind (.bind .flushTrivia _) _
  refine .ask_bind kind_significant fun k => ?_
  split
  case h_10 =>
    exact .ask_bind (fun ts => by simp [Lookahead.atWord]) fun _ => .ite (hnode _) hoperand
  case h_11 => exact hoperand
  all_goals exact hnode _

/-- An expression is what the reader of operands makes of it, or an operation. -/
theorem run_expression_cases {s : ParserState} (hs : Underway s) (power : Nat) :
    ((whole (.expression power)).run s).2 = ((whole .unary).run (flushTrivia.run s).2).2 ∨
      ∃ new, Forming false .operation (flushTrivia.run s).2 ((whole (.expression power)).run s).2
        new := by
  have hflush := (extends_flushTrivia s).underway hs
  obtain ⟨front, hfront⟩ := forms_whole .unary _ hflush trivial
  have hrun : ((whole (.expression power)).run s).2 =
      ((if decide ((flushTrivia.run s).2.builder.mark <
          ((whole .unary).run (flushTrivia.run s).2).2.builder.mark) = true
        then loop (infixPart whole power (flushTrivia.run s).2.builder.mark) else pure () :
          Parser Unit).run ((whole .unary).run (flushTrivia.run s).2).2).2 :=
    congrArg Prod.snd (whole_run _ s)
  rw [hrun]
  split
  · rcases (operates_infixPart forms_whole power).loop hflush hfront with hstop | hnode
    · exact .inl (congrArg Prod.snd hstop)
    · exact .inr hnode
  · exact .inl rfl

end Grammar

/-- The state at the first token of a text. -/
def operandStart (text : String) : ParserState := (flushTrivia.run (openFile text)).2

/-- The state behind the operand at the start of a text. -/
def operandEnd (text : String) : ParserState :=
  ((Grammar.whole .unary).run (operandStart text)).2

theorem underway_operandStart (text : String) : Underway (operandStart text) :=
  (extends_flushTrivia _).underway (underway_openFile text)

/-- **What is no operation is an operand.** The reader of operands takes a text that is read as
any other expression up to its end, with nothing to complain about, and makes its one node. -/
theorem exists_operand {text : String} {g : Node} (h : parseExpression text = .ok g)
    (hoperand : g.kind.isOperation = false) :
    Extends (operandStart text) (operandEnd text) [g.tree] ∧ (operandEnd text).errors = [] ∧
      Lookahead.kind (operandEnd text).rest = .eof := by
  have hstart := underway_operandStart text
  have hflush : Extends (openFile text) (operandStart text) (triviaAhead (openFile text).rest) :=
    extends_flushTrivia _
  obtain ⟨new, hnew⟩ := Grammar.forms_whole (.expression 0) _ (underway_openFile text) trivial
  have hread : ((Grammar.whole (.expression 0)).run (openFile text)).2 =
      ((Grammar.within (nestingBound (Token.lex text)) (.expression 0)).run (openFile text)).2 :=
    congrArg Prod.snd (Grammar.whole_eq_within _ _)
  obtain ⟨herrors, hend, hfound⟩ := parseFragment_ok hread hnew.ext h
  -- Nothing else than the node is found in what was read.
  have hnode : ∀ {front : Forest} {k cs}, new = triviaAhead (openFile text).rest ++ front →
      bare front = [.node k cs] → (⟨k, cs⟩ : Node) = g := by
    rintro front k cs rfl hbare
    rw [List.findSome?_append, findSome?_node?_of_gap (Lookahead.isGap_triviaAhead _),
      findSome?_node?_of_bare hbare] at hfound
    exact Option.some.inj hfound
  rcases Grammar.run_expression_cases (underway_openFile text) 0 with hsame | ⟨more, hmore⟩
  · have hfinal : ((Grammar.whole (.expression 0)).run (openFile text)).2 = operandEnd text := hsame
    rw [hfinal] at herrors hend hnew
    have hsmooth : Smooth false (operandStart text) (operandEnd text) := ⟨herrors, nofun⟩
    obtain ⟨front, hforms⟩ := Grammar.forms_whole .unary _ hstart trivial
    obtain ⟨front', hneat⟩ := Grammar.neat_whole .unary _ hstart.sound hstart.ended trivial
    obtain rfl := hforms.ext.unique hneat.ext
    obtain ⟨k, cs, hbare, -⟩ := (hforms.whole hsmooth).2
    have hahead : Lookahead.significant (operandStart text).rest = (operandStart text).rest := by
      rw [operandStart, rest_flushTrivia, significant_significant]
    have hone := hforms.ext.eq_singleton hbare hahead (hneat.flawless hsmooth).2.1
    obtain rfl := hnode (hnew.ext.unique (hflush.trans hforms.ext)) hbare
    exact ⟨hone ▸ hforms.ext, herrors, hend⟩
  · have hsmooth : Smooth false (operandStart text)
        ((Grammar.whole (.expression 0)).run (openFile text)).2 := ⟨herrors, nofun⟩
    obtain ⟨k, cs, hbare, hoperation⟩ := (hmore.whole hsmooth).2
    obtain rfl := hnode (hnew.ext.unique (hflush.trans hmore.ext)) hbare
    rw [hoperation] at hoperand
    cases hoperand

theorem rest_operandStart (text : String) :
    (operandStart text).rest = Lookahead.significant (Token.lex text) := rest_flushTrivia _

/-- **An operand is read again.** Before a semicolon, and behind any trivia, the reader of
operands makes the same node of the same tokens. -/
theorem run_operand {text : String} {g : Node} (h : parseExpression text = .ok g)
    (hoperand : g.kind.isOperation = false) {a b : List Token} (hc : Closes a b) {s : ParserState}
    (hs : Sound s)
    (hahead : Alike a b (Lookahead.significant (Token.lex text)) (Lookahead.significant s.rest)) :
    ∃ rest, Alike a b (operandEnd text).rest rest ∧
      (Grammar.whole .unary).run s = ((), reading s (triviaAhead s.rest ++ [g.tree]) rest) := by
  obtain ⟨hext, herrors, hend⟩ := exists_operand h hoperand
  have hstart := underway_operandStart text
  have honce : EndsOnce (operandStart text).rest :=
    (endsOnce_lex text).suffix (rest_operandStart text ▸ significant_suffix _)
  have hcalm : Calm false (operandStart text) (operandEnd text) := by
    refine ⟨herrors, fun hnil => ?_, nofun⟩
    obtain ⟨front, last, hlast, -⟩ := (hext.underway hstart).ended
    rw [hnil] at hlast
    simp at hlast
  -- The run starts behind the trivia, as the one on the text does.
  have hflush : (Grammar.whole .unary).run s = (Grammar.whole .unary).run
      (reading s (triviaAhead s.rest) (Lookahead.significant s.rest)) := by
    rw [Grammar.whole_run, Grammar.whole_run]
    exact (Grammar.flushes_unary _ s).trans (by rw [run_flushTrivia]; rfl)
  rw [← rest_operandStart] at hahead
  obtain ⟨-, new, hnew⟩ := (Grammar.rereads_whole hc).unary.again
    (.start ⟨hstart, honce⟩ (sound_reading hs) hahead) trivial hcalm
  obtain rfl := hext.unique hnew.left
  have hrun := hnew.right.eq_reading hnew.errors
  rw [reading_reading] at hrun
  exact ⟨_, hnew.alike, hflush.trans (Prod.ext rfl hrun)⟩

/-- A name alone is what is read before a token that does not go on with an operand. -/
theorem kindAt?_one_of_operand {text : String} {g : Node} (h : parseExpression text = .ok g)
    (hoperand : g.kind.isOperation = false) (hname : g.kind ≠ .identifierName)
    (hident : Lookahead.kind (Token.lex text) = .identifier) :
    ∀ k ∈ [Kind.eq, .semicolon, .comma, .inKw, .eof],
      Lookahead.kindAt? 1 (Token.lex text) ≠ some k := by
  intro k hk hnext
  obtain ⟨hext, -⟩ := exists_operand h hoperand
  obtain ⟨t, rest, hrest, ht⟩ := exists_next (show Lookahead.kind (Token.lex text) ≠ .eof by simp [hident])
  have hspells : Spells [(Build.identifierName t.text).tree] (operandStart text).rest rest := by
    refine ⟨[t], (rest_operandStart text).trans hrest, ?_⟩
    simp [Build.identifierName, Node.tree, forestLeaves, leaves, Token.leaf, ht.trans hident]
  have hhead : Lookahead.headKind? (Lookahead.significant rest) = some k := by
    simpa [Lookahead.kindAt?, Lookahead.dropSignificant, Lookahead.next, hrest] using hnext
  have hkinds : k ∉ operandKinds ∧ Lookahead.opensOperandOnly k = false := by
    simp only [List.mem_cons, List.not_mem_nil, or_false] at hk
    rcases hk with rfl | rfl | rfl | rfl | rfl <;> decide
  have hgeneric : Lookahead.atGenericName (operandStart text).rest = false := by
    have hless : Lookahead.headKind? (Lookahead.dropSignificant 1 (operandStart text).rest) =
        some k := by
      rw [rest_operandStart, Lookahead.dropSignificant_significant]
      exact hnext
    rw [Lookahead.atGenericName, Lookahead.startsWith, hless]
    simp only [List.mem_cons, List.not_mem_nil, or_false] at hk
    rcases hk with rfl | rfl | rfl | rfl | rfl <;> rfl
  have hrun : (Grammar.whole .unary).run (operandStart text) =
      ((), reading (operandStart text) [(Build.identifierName t.text).tree] rest) :=
    (Grammar.whole_run _ _).trans
      (Grammar.run_unary_name Grammar.whole hspells hhead hkinds.1 hkinds.2 hgeneric)
  have hdone := hext.done
  rw [operandEnd, hrun] at hdone
  have htree : (Build.identifierName t.text).tree = g.tree := by simpa [reading] using hdone
  exact hname (congrArg Tree.kind htree).symm

end CSharpKit.Syntax
