import CSharpKit.Proofs.Syntax.Conditionals
import CSharpKit.Proofs.Syntax.MethodBodies
import CSharpKit.Proofs.Syntax.Operands

/-!
# Statements that wait

`await` is a word like any other, so a name behind it may be the one of a variable of type
`await`. Where no lone name stands behind it, the statement is an expression with a prefix.
-/

namespace CSharpKit.Syntax

open Tree CSharpKit.Syntax.Parser
open Lookahead (Alike headKind? significant)

/-! ## Tokens ahead -/

theorem Parser.IsGap.significant {g : Forest} {ts mid : List Token} (hg : IsGap g)
    (h : Spells g ts mid) : Lookahead.significant ts = Lookahead.significant mid := by
  obtain ⟨front, rfl, hleaves⟩ := h
  refine List.dropWhile_append_of_pos fun t ht => ?_
  exact hg.leaves t.leaf (hleaves ▸ List.mem_map_of_mem ht)

/-- The end of a text stands where the semicolon stands. -/
theorem Lookahead.Closes.significant_eq {a b ts us : List Token} (hc : Lookahead.Closes a b)
    (h : Alike a b ts us) (honce : EndsOnce ts) (hend : Lookahead.kind ts = .eof)
    (hended : Ended ts) : significant us = b := by
  have hone : (significant ts).length = 1 := by
    obtain ⟨t, rest, hts⟩ := List.exists_cons_of_ne_nil hended.significant_ne_nil
    have ht : t.kind = .eof := by simpa [Lookahead.kind, headKind?, hts] using hend
    have hnil : rest = [] := by
      refine honce (ts.takeWhile Token.isTrivia) t rest ?_ ht
      rw [← hts]
      exact List.takeWhile_append_dropWhile.symm
    rw [hts, hnil, List.length_singleton]
  obtain ⟨last, rfl, -⟩ := hc.ended
  have halike := hc.ahead h
  have hlength := halike.length
  obtain ⟨front, front', -, hus, -⟩ := halike
  rw [hus, List.length_append, List.length_singleton] at hlength
  obtain rfl : front' = [] := List.eq_nil_of_length_eq_zero (by omega)
  exact hus

namespace Lookahead

/-- A word before a token that opens an operand is a type by itself. -/
theorem scanType_word {t : Token} {rest : List Token} {k : Kind} (ht : t.kind = .identifier)
    (hk : headKind? (significant rest) = some k) (hopens : opensOperandOnly k = true) :
    scanType (t :: rest) = some rest := by
  have hkinds : k ≠ .less ∧ k ≠ .dot ∧ k ≠ .colonColon ∧ k ≠ .question ∧ k ≠ .lBracket := by
    refine ⟨?_, ?_, ?_, ?_, ?_⟩ <;> rintro rfl <;> exact absurd hopens (by decide)
  have hname : scanSimpleName scanType (t :: rest) = rest := by
    rw [scanSimpleName, next, List.tail_cons, startsWith, hk, if_neg (by simpa using hkinds.1)]
  have hsegments : ∀ n, scanSegments scanType n rest = some rest := by
    rintro (- | n)
    · rfl
    · rw [scanSegments]
      simp [startsWith, hk, hkinds]
  have hsuffixes : ∀ n, scanSuffixes n rest = rest := by
    rintro (- | n)
    · rfl
    · rw [scanSuffixes]
      simp only [hk]
      split <;> simp_all
  rw [scanType_eq, scanTypeWith]
  simp [headKind?, ht, hname, hsegments, hsuffixes, Kind.isPredefinedType]

end Lookahead

/-! ## Runs -/

section

variable {text : String} {g : Node} {a b behind : List Token} {w : Token} {s : ParserState}

/-- The tokens of a text are ahead, behind a word and trivia. -/
structure AwaitAhead (text : String) (a b : List Token) (w : Token) (behind : List Token) : Prop where
  closes : Lookahead.Closes a b
  word : w.tree = .token .identifier "await"
  alike : Alike a b (significant (Token.lex text)) (significant behind)
  opens : Lookahead.opensOperandOnly (Lookahead.kind (Token.lex text)) = true

namespace AwaitAhead

variable (h : AwaitAhead text a b w behind)
include h

theorem ne_eof : Lookahead.kind (Token.lex text) ≠ .eof := by
  intro heof
  have hopens := h.opens
  rw [heof] at hopens
  cases hopens

theorem headKind?_eq : headKind? (significant behind) = some (Lookahead.kind (Token.lex text)) := by
  have hhead : headKind? (significant (Token.lex text)) = some (Lookahead.kind (Token.lex text)) :=
    headKind?_of_kind rfl h.ne_eof
  rcases h.closes.sameHead h.alike with hsame | ⟨heof, -⟩
  · rw [← hsame, hhead]
  · exact absurd (kind_of_headKind? heof) h.ne_eof

theorem kind_word : w.kind = .identifier := (Tree.token.inj h.word).1

theorem solid : Solid (w :: behind) :=
  ⟨w, behind, rfl, by rw [Token.isTrivia, h.kind_word]; rfl⟩

theorem significant_word : significant (w :: behind) = w :: behind := h.solid.significant

theorem kind_ahead : Lookahead.kind (w :: behind) = .identifier := by
  simp [Lookahead.kind, h.significant_word, headKind?, h.kind_word]

/-- No declaration of a variable follows, unless the text is a name. -/
theorem not_atLocalDeclaration (hread : parseExpression text = .ok g)
    (hoperand : g.kind.isOperation = false) (hname : g.kind ≠ .identifierName) :
    Lookahead.atLocalDeclaration (w :: behind) = false := by
  rw [Lookahead.atLocalDeclaration, Lookahead.atTypedName, h.significant_word,
    Lookahead.scanType_word h.kind_word h.headKind?_eq h.opens]
  dsimp only
  rw [Lookahead.startsWith, h.headKind?_eq]
  by_cases hident : Lookahead.kind (Token.lex text) = .identifier
  · have hnext := kindAt?_one_of_operand hread hoperand hname hident
    have hbehind := h.closes.behind h.alike (by simpa using h.ne_eof)
    rw [Lookahead.dropSignificant_significant, Lookahead.dropSignificant_significant] at hbehind
    rcases h.closes.sameHead hbehind with hsame | ⟨heof, -⟩
    · rw [show Lookahead.next (significant behind) = Lookahead.dropSignificant 1 behind from rfl,
        ← hsame, ← Lookahead.kindAt?]
      cases hkind : Lookahead.kindAt? 1 (Token.lex text) with
      | none => simp
      | some k =>
          have hnot : k ∉ [Kind.eq, .semicolon, .comma, .inKw] := fun hk =>
            hnext k (List.mem_append_left [Kind.eof] hk) hkind
          simpa using fun _ => hnot
    · exact absurd heof (hnext .eof (by decide))
  · simp [hident]

/-- The word and the operand are a prefix expression. -/
theorem run_unary (hread : parseExpression text = .ok g) (hoperand : g.kind.isOperation = false)
    (hrest : s.rest = w :: behind) : ∃ rest, significant rest = b ∧
      (Grammar.whole .unary).run s = ((), reading s [.node .prefixUnaryExpression
        (.token .identifier "await" :: (triviaAhead behind ++ [g.tree]))] rest) := by
  have hbump := run_bump (s := opening s .prefixUnaryExpression s.builder.mark)
    (terminal_token .identifier "await") ⟨rfl, by decide⟩
    (spells_token.mpr ⟨w, hrest, h.word⟩)
  obtain ⟨rest, halike, hrun⟩ := run_operand hread hoperand h.closes
    (s := reading (opening s .prefixUnaryExpression s.builder.mark) [.token .identifier "await"]
      behind) (sound_reading (sound_opening (Extends.refl s) _)) h.alike
  obtain ⟨hext, -, hend⟩ := exists_operand hread hoperand
  have honce : EndsOnce (operandEnd text).rest :=
    ((endsOnce_lex text).suffix (rest_operandStart text ▸ significant_suffix _)).suffix hext.suffix
  refine ⟨rest, h.closes.significant_eq halike honce hend
    (hext.underway (underway_operandStart text)).ended, ?_⟩
  have hawait : (Lookahead.atWord "await" (w :: behind) &&
      (Lookahead.kindAt? 1 (w :: behind)).any Lookahead.opensOperandOnly) = true := by
    have hnext : Lookahead.kindAt? 1 (w :: behind) = headKind? (significant behind) := by
      simp [Lookahead.kindAt?, Lookahead.dropSignificant, Lookahead.next, h.significant_word]
    have htext : Lookahead.text (w :: behind) = "await" := by
      simp [Lookahead.text, h.significant_word, (Tree.token.inj h.word).2]
    simp [Lookahead.atWord, h.kind_ahead, htext, hnext, h.headKind?_eq, h.opens]
  rw [Grammar.whole_run]
  show (Grammar.unary Grammar.whole).run s = _
  rw [Grammar.unary, peek, run_ask_bind, hrest, h.kind_ahead]
  dsimp only
  rw [run_ask_bind, hrest, hawait, if_pos rfl]
  refine run_node (g := []) isGap_nil (spells_nil.mpr rfl) (hrest ▸ h.solid) ?_
  rw [reading_nil, run_bind hbump]
  refine hrun.trans ?_
  rw [reading_reading]
  rfl

/-- The prefix expression is all of the expression in front of the semicolon. -/
theorem run_expression (hread : parseExpression text = .ok g) (hoperand : g.kind.isOperation = false)
    (hrest : s.rest = w :: behind) : ∃ rest, significant rest = b ∧
      (Grammar.whole (.expression 0)).run s = ((), reading s [.node .prefixUnaryExpression
        (.token .identifier "await" :: (triviaAhead behind ++ [g.tree]))] rest) := by
  obtain ⟨rest, hend, hunary⟩ := h.run_unary hread hoperand hrest
  have hstop : ∀ s' : ParserState, s'.rest = rest →
      (Grammar.infixPart Grammar.whole 0 s.builder.mark).run s' = (false, s') := by
    rintro s' rfl
    exact Grammar.run_infixPart_none (hend ▸ h.closes.semicolon) (by decide) rfl
  refine ⟨rest, hend, ?_⟩
  rw [Grammar.whole_run]
  show (Grammar.expressionAbove Grammar.whole 0).run s = _
  rw [Grammar.expressionAbove,
    run_bind (run_mark_of_gap (g := []) isGap_nil (spells_nil.mpr rfl) (hrest ▸ h.solid)), reading_nil,
    run_bind hunary, run_bind run_grownSince, if_pos rfl]
  exact (LoopEnds.last (hstop _ rfl)).run

end AwaitAhead

end

/-! ## Statements -/

/-- The tokens of `await e;` as it may be written, with the tokens of a text in the place
of `e`. -/
def awaitTokens (leading gap : Forest) (text : String) : Forest :=
  leading ++ ([.token .identifier "await"] ++
    (gap ++ ((Token.contents text).map Token.tree ++ [.token .semicolon ";"])))

/-- `await e;` as an expression statement. -/
def awaitStatement (before : Forest) (operand : Node) (after : Forest) : Tree :=
  .node .expressionStatement (.node .prefixUnaryExpression
    (.token .identifier "await" :: (before ++ [operand.tree])) ::
      (after ++ [.token .semicolon ";"]))

/-- Where parentheses are open in front of the tokens, no arrow stands behind the one that
closes the first of them. -/
def Lookahead.Arrowless (ts : List Token) : Prop := ∀ depth,
  startsWith .arrow (significant (skipBalanced .lParen .rParen (depth + 1) ts)) = false

/-- Behind the leading trivia stand the word, the tokens of the text and the semicolon. -/
theorem exists_awaitAhead {text : String} {leading gap : Forest} {ts tail : List Token}
    (hopens : Lookahead.opensOperandOnly (Lookahead.kind (Token.lex text)) = true)
    (hgap : IsGap gap) (h : Spells (awaitTokens leading gap text) ts tail)
    (htail : Lookahead.Arrowless tail) :
    ∃ last semicolon w behind, AwaitAhead text [last] (semicolon :: tail) w behind ∧
      Spells leading ts (w :: behind) ∧ semicolon.tree = .token .semicolon ";" := by
  obtain ⟨last, hlex, hlast, -⟩ := Token.lex_eq_contents text
  obtain ⟨mid, hlead, hstatement⟩ := spells_append.mp h
  obtain ⟨behind, hword, hbehind⟩ := spells_append.mp hstatement
  obtain ⟨w, rfl, hw⟩ := spells_token.mp hword
  obtain ⟨us, hgapAhead, hwritten⟩ := spells_append.mp hbehind
  obtain ⟨_, ⟨front, rfl, hfront⟩, hsemicolon⟩ := spells_append.mp hwritten
  obtain ⟨semicolon, rfl, htree⟩ := spells_token.mp hsemicolon
  have hkind : semicolon.kind = .semicolon := (Tree.token.inj htree).1
  have hcloses : Lookahead.Closes [last] (semicolon :: tail) := by
    refine ⟨⟨last, rfl, hlast⟩, congrArg some hkind, fun depth => ?_⟩
    rw [Lookahead.skipBalanced]
    simp [hkind, htail depth]
  have halike : Alike [last] (semicolon :: tail) (Token.lex text) (front ++ semicolon :: tail) :=
    ⟨Token.contents text, front, hlex, rfl, by rw [hfront, forestLeaves_map_tree]⟩
  exact ⟨last, semicolon, w, behind,
    ⟨hcloses, hw, hgap.significant hgapAhead ▸ hcloses.ahead halike, hopens⟩, hlead, htree⟩

/-- **`await e;` is read as an expression statement**, wherever a statement is read, if `e` is
an expression that is no operation and no lone name. -/
theorem run_awaitStatement {text : String} {g : Node} (hread : parseExpression text = .ok g)
    (hopens : Lookahead.opensOperandOnly (Lookahead.kind (Token.lex text)) = true)
    (hoperand : g.kind.isOperation = false) (hname : g.kind ≠ .identifierName)
    {leading gap : Forest} (hleading : IsGap leading) (hgap : IsGap gap) {s : ParserState}
    {tail : List Token} (h : Spells (awaitTokens leading gap text) s.rest tail)
    (htail : Lookahead.Arrowless tail) :
    ∃ before after, IsGap before ∧ IsGap after ∧ (Grammar.whole .statement).run s =
      ((), reading s (leading ++ [awaitStatement before g after]) tail) := by
  obtain ⟨last, semicolon, w, behind, hahead, hlead, htree⟩ := exists_awaitAhead hopens hgap h htail
  have hkind : Lookahead.kind s.rest = .identifier := by
    rw [← kind_significant, hleading.significant hlead, kind_significant, hahead.kind_ahead]
  have hdeclaration : Lookahead.atLocalDeclaration s.rest = false := by
    rw [Lookahead.atLocalDeclaration, Lookahead.atTypedName, hleading.significant hlead]
    exact hahead.not_atLocalDeclaration hread hoperand hname
  obtain ⟨rest, hend, hexpression⟩ := hahead.run_expression hread hoperand
    (s := opening (reading s leading (w :: behind)) .expressionStatement
      (reading s leading (w :: behind)).builder.mark) rfl
  have hrequire := run_require (k := .semicolon) (f := triviaAhead rest ++ [.token .semicolon ";"])
    (s := reading (opening (reading s leading (w :: behind)) .expressionStatement
      (reading s leading (w :: behind)).builder.mark) [.node .prefixUnaryExpression
        (.token .identifier "await" :: (triviaAhead behind ++ [g.tree]))] rest)
    ⟨_, ";", Lookahead.isGap_triviaAhead rest, rfl⟩ ⟨rfl, by decide⟩
    (spells_append.mpr ⟨_, Lookahead.spells_triviaAhead rest,
      spells_token.mpr ⟨semicolon, hend, htree⟩⟩) "expected `;` after expression"
  refine ⟨triviaAhead behind, triviaAhead rest, Lookahead.isGap_triviaAhead _,
    Lookahead.isGap_triviaAhead _, ?_⟩
  rw [Grammar.whole_run]
  show (Grammar.statement Grammar.whole).run s = _
  rw [Grammar.statement, peek, run_ask_bind, hkind]
  show (Grammar.plainStatement Grammar.whole).run s = _
  rw [Grammar.plainStatement, run_ask_bind, hdeclaration, if_neg Bool.false_ne_true, peek,
    run_ask_bind, hkind,
    if_pos (show Lookahead.opensExpression .identifier = true from rfl)]
  refine run_node hleading hlead hahead.solid ?_
  refine (run_bind hexpression).trans (hrequire.trans ?_)
  rw [reading_reading, reading_opening, reading_reading, List.cons_append, List.nil_append]

/-! ## Files -/

namespace Lookahead

/-- Tokens that neither open nor close parentheses do not matter to what stands behind these. -/
theorem Arrowless.of_spells {f : Forest} {ts tail : List Token}
    (hf : ∀ leaf ∈ forestLeaves f, leaf.1 ∉ [Kind.lParen, .rParen, .eof]) (h : Spells f ts tail)
    (htail : Arrowless tail) : Arrowless ts := by
  obtain ⟨front, rfl, hleaves⟩ := h
  rw [← hleaves] at hf
  clear hleaves
  induction front with
  | nil => exact htail
  | cons t front ih =>
      have ht : t.kind ∉ [Kind.lParen, .rParen, .eof] := hf _ List.mem_cons_self
      simp only [List.mem_cons, List.not_mem_nil, or_false, not_or] at ht
      intro depth
      rw [List.cons_append, skipBalanced]
      simpa [ht] using ih (fun leaf hleaf => hf leaf (List.mem_cons_of_mem _ hleaf)) depth

theorem arrowless_eof {last : Token} (hlast : last.kind = .eof) : Arrowless [last] := by
  intro depth
  simp [skipBalanced, startsWith, headKind?, significant, Token.isTrivia, Kind.isTrivia, hlast]

end Lookahead

/-- A statement that waits is what may stand in the body of a method. -/
theorem readsInside_awaitStatement {text : String} {g : Node} (hread : parseExpression text = .ok g)
    (hopens : Lookahead.opensOperandOnly (Lookahead.kind (Token.lex text)) = true)
    (hoperand : g.kind.isOperation = false) (hname : g.kind ≠ .identifierName) {gap : Forest}
    (hgap : IsGap gap) {tail : List Token} (htail : Lookahead.Arrowless tail) :
    Grammar.ReadsInside (Grammar.whole .statement) (awaitTokens [] gap text) tail fun t =>
      ∃ before after, IsGap before ∧ IsGap after ∧ t = awaitStatement before g after := by
  have hspells : ∀ ts, Spells ([Build.space] ++ awaitTokens [] gap text) ts tail →
      Spells (awaitTokens [Build.space] gap text) ts tail := fun ts => id
  refine ⟨fun ts hts => ?_, fun s _ hs => ?_⟩
  · obtain ⟨mid, hlead, hstatement⟩ := spells_append.mp (hspells ts hts)
    obtain ⟨behind, hword, -⟩ := spells_append.mp hstatement
    rw [← kind_significant, isGap_space.significant hlead, kind_significant,
      (terminal_token .identifier "await").kind rfl hword]
    decide
  · obtain ⟨before, after, hbefore, hafter, hrun⟩ := run_awaitStatement hread hopens hoperand hname
      isGap_space hgap (hspells _ hs) htail
    exact ⟨_, ⟨before, after, hbefore, hafter, rfl⟩, hrun⟩

/-- **`await e;` is an expression statement** over the node that `e` is read as, if `e` is no
lone name and no operation: wherever a statement is read, and in the body of a method, where
nothing is complained about. An identifier or a literal may be the first token of `e`, and so
may any other one that nothing but an operand begins with. -/
theorem parse_awaitStatement {text : String} {g : Node} (hread : parseExpression text = .ok g)
    (hopens : Lookahead.opensOperandOnly (Lookahead.kind (Token.lex text)) = true)
    (hoperand : g.kind.isOperation = false) (hname : g.kind ≠ .identifierName) :
    (∀ leading gap s tail, IsGap leading → IsGap gap → Lookahead.Arrowless tail →
      Spells (awaitTokens leading gap text) s.rest tail →
      ∃ before after, IsGap before ∧ IsGap after ∧ (Grammar.whole .statement).run s =
        ((), reading s (leading ++ [awaitStatement before g after]) tail)) ∧
    ∀ type method gap file, IsGap gap → (Token.contents file).map Token.leaf =
        (methodClass type method (awaitTokens [] gap text)).leaves →
      ∃ before after, IsGap before ∧ IsGap after ∧ parse file = ⟨.node .compilationUnit
        [methodClass type method [awaitStatement before g after]], []⟩ := by
  constructor
  · intro leading gap s tail hleading hgap htail h
    exact run_awaitStatement hread hopens hoperand hname hleading hgap h htail
  · intro type method gap file hgap hfile
    obtain ⟨t, ⟨before, after, hbefore, hafter, rfl⟩, hparse⟩ :=
      Grammar.parse_methodClass hfile fun ts last hlast hbraces =>
        readsInside_awaitStatement hread hopens hoperand hname hgap
          (.of_spells (by decide) hbraces (Lookahead.arrowless_eof hlast))
    exact ⟨before, after, hbefore, hafter, hparse⟩

/-- A call waited for, at the end of a text and in a file. -/
theorem parse_awaitStatement_call :
    ∃ g, parseExpression "f(x)" = .ok g ∧ g.kind = .invocationExpression ∧
      (∃ last before after, IsGap before ∧ IsGap after ∧
        (Grammar.whole .statement).run (openFile "await f(x);") =
          ((), reading (openFile "await f(x);") [awaitStatement before g after] [last])) ∧
      ∃ before after, IsGap before ∧ IsGap after ∧
        parse "class C \x7b void M() \x7b await f(x); \x7d \x7d" = ⟨.node .compilationUnit
          [methodClass "C" "M" [awaitStatement before g after]], []⟩ := by
  have hkind : (parseExpression "f(x)").toOption.map Node.kind = some .invocationExpression := by
    decide +kernel
  obtain ⟨g, hread⟩ := exists_eq_ok (show (parseExpression "f(x)").isOk = true by decide +kernel)
  have hg : g.kind = .invocationExpression := by simpa [hread, Except.toOption] using hkind
  have hawait := parse_awaitStatement hread (by decide +kernel) (by rw [hg]; rfl)
    (by rw [hg]; decide)
  refine ⟨g, hread, hg, ?_, ?_⟩
  · obtain ⟨last, hlex, hlast, -⟩ := Token.lex_eq_contents "await f(x);"
    have htokens : (Token.contents "await f(x);").map Token.leaf =
        forestLeaves (awaitTokens [] [Build.space] "f(x)") := by decide +kernel
    obtain ⟨before, after, hbefore, hafter, hrun⟩ := hawait.1 [] [Build.space]
      (openFile "await f(x);") [last] isGap_nil isGap_space (Lookahead.arrowless_eof hlast)
      ⟨_, hlex, htokens⟩
    exact ⟨last, before, after, hbefore, hafter, hrun⟩
  · exact hawait.2 "C" "M" [Build.space] _ isGap_space (by decide +kernel)

/-- A lone name behind `await` is taken for the one of a variable. -/
theorem parse_awaitStatement_name :
    (∃ g, parseExpression "x" = .ok g ∧ g.kind = .identifierName) ∧
    Lookahead.kind (Token.lex "x") = .identifier ∧
    (Token.contents "class C \x7b void M() \x7b await x; \x7d \x7d").map Token.leaf =
      (methodClass "C" "M" (awaitTokens [] [Build.space] "x")).leaves ∧
    (∃ row ∈ (parse "class C \x7b void M() \x7b await x; \x7d \x7d").tree.outline,
      row.2.1 = .localDeclarationStatement) ∧
    ¬∃ g before after, parseExpression "x" = .ok g ∧
      parse "class C \x7b void M() \x7b await x; \x7d \x7d" = ⟨.node .compilationUnit
        [methodClass "C" "M" [awaitStatement before g after]], []⟩ := by
  have hkind : (parseExpression "x").toOption.map Node.kind = some .identifierName := by
    decide +kernel
  obtain ⟨g, hread⟩ := exists_eq_ok (show (parseExpression "x").isOk = true by decide +kernel)
  refine ⟨⟨g, hread, by simpa [hread, Except.toOption] using hkind⟩, by decide +kernel,
    by decide +kernel, by decide +kernel, ?_⟩
  have hnone : ∀ row ∈ (parse "class C \x7b void M() \x7b await x; \x7d \x7d").tree.outline,
      row.2.1 ≠ .expressionStatement := by decide +kernel
  rintro ⟨g, before, after, -, hparse⟩
  rw [hparse] at hnone
  refine hnone (4, .expressionStatement, none) ?_ rfl
  simp [Tree.outline, Tree.outlineAt, Tree.forestOutlineAt, methodClass, voidMethod, inBraces, awaitStatement]

end CSharpKit.Syntax
