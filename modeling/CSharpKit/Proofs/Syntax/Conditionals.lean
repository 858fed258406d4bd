import CSharpKit.Proofs.Syntax.Conditions
import CSharpKit.Proofs.Syntax.TypeGrammar

/-!
# Conditional expressions

Where a condition, a question mark and two names with a colon between them are ahead, the
reader of expressions makes a conditional expression of the three.
-/

namespace CSharpKit.Syntax

open Tree CSharpKit.Syntax.Parser
open Lookahead (Binding headKind? significant)

/-- `c ? a : b` as it may be written, with trivia in any place. -/
structure Conditional where
  /-- The first operand of the condition, and the parts that go on with it. -/
  first : String
  parts : List ConditionPart
  whenTrue : String
  whenFalse : String
  /-- The trees of the parts. -/
  body : Forest
  laid : ConditionPart.Laid parts body
  question : Forest
  terminalQuestion : Terminal .question question
  colon : Forest
  terminalColon : Terminal .colon colon
  /-- The trivia before the condition, before the two other operands and behind all. -/
  leading : Forest
  gapTrue : Forest
  gapFalse : Forest
  trailing : Forest
  gaps : ∀ g ∈ [leading, gapTrue, gapFalse, trailing], IsGap g

namespace Conditional

variable (c : Conditional)

/-- The trees of the condition from left to right. -/
def condition : Forest := (Build.identifierName c.first).tree :: c.body

/-- The trees behind the condition. -/
def branches : Forest := c.question ++ (c.gapTrue ++ [(Build.identifierName c.whenTrue).tree] ++
  (c.colon ++ (c.gapFalse ++ [(Build.identifierName c.whenFalse).tree])))

def trees : Forest := c.leading ++ (c.condition ++ (c.branches ++ c.trailing))

end Conditional

namespace Grammar

variable {s s' : ParserState} {power : Nat} {rules : Rules} {ts rest mid : List Token} {k : Kind}

/-- A token that is no operator ends an expression. -/
theorem run_infixPart_none {start : Nat} (hk : headKind? (significant s.rest) = some k)
    (hwords : k ∉ [Kind.question, .isKw, .asKw]) (hnone : Binding.ofKind? k = none) :
    (infixPart rules power start).run s = (false, s) := by
  have hbinding : Lookahead.binding? s.rest = none := by
    have hshift : Lookahead.shiftTail? s.rest = none := by
      rw [Lookahead.shiftTail?]
      split
      case h_1 a b more hts =>
        have hne : a.kind ≠ .greater := by
          intro ha
          rw [hts] at hk
          obtain rfl := Option.some.inj hk
          rw [ha] at hnone
          cases hnone
        simp [hne]
      case h_2 => rfl
    rw [Lookahead.binding?, hshift, kind_of_headKind? hk, hnone]
  have hbinary : (infixPart rules power start).run s = (binaryPart rules power start).run s := by
    simp only [List.mem_cons, List.not_mem_nil, or_false, not_or] at hwords
    rw [infixPart, peek, run_ask_bind, kind_of_headKind? hk]
    split
    case h_1 => exact absurd rfl hwords.1
    case h_2 => exact absurd rfl hwords.2.1
    case h_3 => exact absurd rfl hwords.2.2
    case h_4 => rfl
  rw [hbinary, binaryPart, run_ask_bind, hbinding]
  rfl

/-- A name is all of an expression in front of a colon or the end. -/
theorem run_expression_name {g : Forest} {name : String} (hg : IsGap g)
    (hname : Spells (g ++ [(Build.identifierName name).tree]) s.rest ts)
    (hk : headKind? (significant ts) = some k) (hend : k = .colon ∨ k = .eof)
    (hcomparing : ComparingAhead ts) :
    (whole (.expression power)).run s =
      ((), reading s (g ++ [(Build.identifierName name).tree]) ts) := by
  obtain ⟨mid, hgap, hoperand⟩ := spells_append.mp hname
  have hkind : Lookahead.kind mid = .identifier :=
    ((Opens.token .identifier name).node []).kind rfl hoperand
  have hgeneric := (ComparingAhead.name (g := []) isGap_nil hoperand hcomparing).not_atGenericName
    hkind
  have hkinds : followsOperand k = true ∧ k ∉ [Kind.question, .isKw, .asKw] ∧
      Binding.ofKind? k = none := by
    rcases hend with rfl | rfl <;> decide
  refine run_expression_of_name hg hgap hoperand hk hkinds.1 hgeneric (LoopEnds.last ?_)
  exact run_infixPart_none hk hkinds.2.1 hkinds.2.2

/-- A question mark takes the tree in front of it as its condition. -/
theorem run_infixPart_question {rules : Rules} (condition : Tree) {question f colon f' : Forest}
    {ts₁ ts₂ ts₃ : List Token} (hs : Sound s) (hpower : power ≤ Binding.conditionalPower)
    (hquestion : Terminal .question question) (hmark : Spells question ts ts₁)
    (htrue : ∀ s : ParserState, Sound s → s.rest = ts₁ →
      (rules (.expression 0)).run s = ((), reading s f ts₂))
    (hcolon : Terminal .colon colon) (hpoints : Spells colon ts₂ ts₃)
    (hfalse : ∀ s : ParserState, Sound s → s.rest = ts₃ →
      (rules (.expression Binding.conditionalPower)).run s = ((), reading s f' rest)) :
    (infixPart rules power s.builder.mark).run (reading s [condition] ts) = (true, reading s
      [.node .conditionalExpression (condition :: (question ++ (f ++ (colon ++ f'))))] rest) := by
  have hbump := run_bump (s := opening (reading s [condition] ts) .conditionalExpression
    s.builder.mark) hquestion ⟨rfl, by decide⟩ hmark
  rw [reading_opening, reading_reading] at hbump
  have hpart := htrue (opening (reading s ([condition] ++ question) ts₁) .conditionalExpression
    s.builder.mark) sound_opening_reading rfl
  rw [reading_opening, reading_reading, List.append_assoc] at hpart
  have hrequire := run_require (s := opening (reading s ([condition] ++ (question ++ f)) ts₂)
    .conditionalExpression s.builder.mark) hcolon ⟨rfl, by decide⟩ hpoints
      "expected `:` in conditional expression"
  rw [reading_opening, reading_reading, List.append_assoc, List.append_assoc] at hrequire
  have hlast := hfalse (opening (reading s ([condition] ++ (question ++ (f ++ colon))) ts₃)
    .conditionalExpression s.builder.mark) sound_opening_reading rfl
  rw [reading_opening, reading_reading, List.append_assoc, List.append_assoc,
    List.append_assoc] at hlast
  have hbody : (bump >>= fun _ => expression rules >>= fun _ =>
      require .colon "expected `:` in conditional expression" >>= fun _ =>
        rules (.expression Binding.conditionalPower)).run
          (opening (reading s [condition] ts) .conditionalExpression s.builder.mark) = ((), opening
            (reading s ([condition] ++ (question ++ (f ++ (colon ++ f')))) rest)
              .conditionalExpression s.builder.mark) := by
    rw [run_bind hbump]
    refine (run_bind hpart).trans ?_
    rw [run_bind hrequire]
    exact hlast
  have hnode := run_nodeFrom hs hbody
  rw [infixPart, peek, run_ask_bind, rest_reading, hquestion.kind rfl hmark]
  show (conditionalPart rules power s.builder.mark).run _ = _
  rw [conditionalPart, if_neg (Nat.not_lt_of_le hpower)]
  exact run_bind hnode

/-- The condition, `?`, a name, `:` and a name are read as a conditional expression. -/
theorem exists_run_conditional {c : Conditional} (hlegible : ConditionPart.Legible c.parts)
    (hs : Sound s) (h : Spells (c.leading ++ (c.condition ++ c.branches)) s.rest ts)
    (hk : headKind? (significant ts) = some .eof) (hcomparing : ComparingAhead ts) :
    ∃ condition : Tree, condition.leaves = forestLeaves c.condition ∧
      condition.kind.isExpr = true ∧ (whole (.expression 0)).run s = ((), reading s
        (c.leading ++ [.node .conditionalExpression (condition :: c.branches)]) ts) := by
  obtain ⟨hleading, hgapTrue, hgapFalse⟩ :
      IsGap c.leading ∧ IsGap c.gapTrue ∧ IsGap c.gapFalse :=
    ⟨c.gaps _ (by simp), c.gaps _ (by simp), c.gaps _ (by simp)⟩
  obtain ⟨mid, hgap, h⟩ := spells_append.mp h
  obtain ⟨rest, hcondition, hbranches⟩ := spells_append.mp h
  obtain ⟨ts₀, hfirst, hbody⟩ := spells_cons.mp hcondition
  obtain ⟨ts₁, hmark, hmore⟩ := spells_append.mp hbranches
  obtain ⟨ts₂, htrue, hmore⟩ := spells_append.mp hmore
  obtain ⟨ts₃, hpoints, hfalse⟩ := spells_append.mp hmore
  -- What may look like the end of type arguments, from the end to the front.
  have hcomparing₃ := ComparingAhead.name hgapFalse hfalse hcomparing
  have hcomparing₂ := hcomparing₃.terminal c.terminalColon (by decide) hpoints
  have hcomparing₁ := ComparingAhead.name hgapTrue htrue hcomparing₂
  have hcomparingRest := hcomparing₁.terminal c.terminalQuestion (by decide) hmark
  have hquestion : headKind? (significant rest) = some .question :=
    headKind?_of_kind (c.terminalQuestion.kind rfl hmark) (by decide)
  have hcolon : headKind? (significant ts₂) = some .colon :=
    headKind?_of_kind (c.terminalColon.kind rfl hpoints) (by decide)
  have hparts : PartsAhead c.parts ts₀ rest := ⟨c.body, c.laid, hbody⟩
  obtain ⟨condition, behind, more, hclimbs⟩ := exists_climbs hquestion hcomparingRest hlegible hparts
    (Build.identifierName c.first).tree 0
  obtain rfl : more = [] := by
    cases more with
    | nil => rfl
    | cons part more => exact absurd (hclimbs.loose part rfl) (Nat.not_lt_zero _)
  obtain rfl := hclimbs.ahead.eq_of_nil
  have hleaves : condition.leaves = forestLeaves c.condition := by
    have hclimbed := hclimbs.leaves
    rw [hbody.map_leaf, ← List.append_assoc] at hclimbed
    simpa [Conditional.condition, forestLeaves] using List.append_cancel_right hclimbed
  refine ⟨condition, hleaves, hclimbs.expr rfl, ?_⟩
  have hstep := run_infixPart_question condition (s := reading s c.leading mid)
    (sound_reading hs) (Nat.zero_le _) c.terminalQuestion hmark
    (fun s _ hs => run_expression_name hgapTrue (hs ▸ htrue) hcolon (.inl rfl) hcomparing₂)
    c.terminalColon hpoints
    fun s _ hs => run_expression_name hgapFalse (hs ▸ hfalse) hk (.inr rfl) hcomparing
  have hlast : LoopEnds (infixPart whole 0 (reading s c.leading mid).builder.mark)
      (reading (reading s c.leading mid) [.node .conditionalExpression (condition :: c.branches)] ts)
      _ := LoopEnds.last (run_infixPart_none hk (by decide) rfl)
  have hlength := hbranches.length
  have hpos : 0 < (forestLeaves c.branches).length := by
    have hne := List.length_pos_of_ne_nil c.terminalQuestion.ne_nil
    rw [Conditional.branches, forestLeaves_append, List.length_append]
    omega
  have hend := hclimbs.ends _ _ (sound_reading hs) (LoopEnds.next hstep
    (by simp only [rest_reading]; omega) hlast)
  rw [reading_reading, reading_reading] at hend
  exact run_expression_of_parts hleading hgap hfirst hparts hquestion hcomparingRest hend

end Grammar

/-! ## Texts -/

theorem filter_isExpr_gap {g : Forest} (hg : IsGap g) : (g.filter fun t => t.kind.isExpr) = [] := by
  refine List.filter_eq_nil_iff.mpr fun t ht => ?_
  obtain ⟨k, text, rfl, hk⟩ := hg t ht
  show ¬k.isExpr = true
  cases k <;> first | decide | cases hk

theorem filter_isExpr_terminal {k : Kind} {f : Forest} (hf : Terminal k f) (hk : k.isExpr = false) :
    (f.filter fun t => t.kind.isExpr) = [] := by
  obtain ⟨g, text, hg, rfl⟩ := hf
  rw [List.filter_append, filter_isExpr_gap hg]
  simp [Tree.kind, hk]

/-- **Conditional expressions are read as they are written.** Where a text has the tokens of a
condition, `?`, a name, `:` and a name, with any trivia between them, it is read as a conditional
expression whose three operands have the texts of these, unless a type in the condition
goes on with what stands behind it. -/
theorem parseExpression_conditional (c : Conditional) (text : String)
    (hlegible : ConditionPart.Legible c.parts)
    (h : (Token.contents text).map Token.leaf = forestLeaves c.trees) :
    ∃ node, parseExpression text = .ok node ∧ node.kind = .conditionalExpression ∧
      (node.children.filter fun t => t.kind.isExpr).map Tree.text =
        [String.join ((forestLeaves c.condition).map Prod.snd), c.whenTrue, c.whenFalse] := by
  obtain ⟨last, hlex, hlast, -⟩ := Token.lex_eq_contents text
  have htrailing : IsGap c.trailing := c.gaps _ (by simp)
  have htrees : Spells (c.leading ++ (c.condition ++ c.branches) ++ c.trailing)
      (openFile text).rest [last] :=
    ⟨Token.contents text, hlex, by rw [h, Conditional.trees]; simp only [List.append_assoc]⟩
  obtain ⟨ts, hspells, htrail⟩ := spells_append.mp htrees
  have hsolid : Solid [last] := ⟨last, [], rfl, by rw [Token.isTrivia, hlast]; rfl⟩
  have hsignificant : significant ts = [last] := (triviaAhead_of_gap htrailing htrail hsolid).2
  have hk : headKind? (significant ts) = some .eof := by rw [hsignificant, ← hlast]; rfl
  have hend : ComparingAhead [last] :=
    ⟨[], [last], rfl, ⟨.eof, congrArg some hlast, rfl⟩, comparing_of_eof hlast⟩
  obtain ⟨condition, hleaves, hexpr, hrun⟩ := Grammar.exists_run_conditional hlegible
    (sound_openFile text) hspells hk (.gap htrailing htrail hend)
  have hread : (Grammar.within (nestingBound (Token.lex text)) (.expression 0)).run (openFile text) =
      ((), reading (openFile text)
        (c.leading ++ [.node .conditionalExpression (condition :: c.branches)]) ts) := by
    have hrest : (openFile text).rest = Token.lex text := rfl
    rw [← hrest, ← Grammar.whole_eq_within]
    exact hrun
  refine ⟨⟨.conditionalExpression, condition :: c.branches⟩, ?_, rfl, ?_⟩
  · refine parseFragment_of_run (kind_of_headKind? hk) ?_ hread
    rw [List.findSome?_append, findSome?_node?_of_gap (c.gaps _ (by simp))]
    rfl
  · have hname : ∀ name, (Build.identifierName name).tree.kind.isExpr = true := fun _ => rfl
    have htext : ∀ name, (Build.identifierName name).tree.text = name := fun name => by
      simp [Build.identifierName, Node.tree, Tree.text, Tree.leaves, forestLeaves]
    have hbranches : (c.branches.filter fun t => t.kind.isExpr).map Tree.text =
        [c.whenTrue, c.whenFalse] := by
      simp only [Conditional.branches, List.filter_append, List.filter_cons, List.filter_nil, hname,
        filter_isExpr_terminal c.terminalQuestion rfl, filter_isExpr_terminal c.terminalColon rfl,
        filter_isExpr_gap (c.gaps c.gapTrue (by simp)),
        filter_isExpr_gap (c.gaps c.gapFalse (by simp))]
      simp [htext]
    rw [List.filter_cons_of_pos (by simpa using hexpr), List.map_cons, hbranches, Tree.text, hleaves]

/-! ### One line each -/

namespace Conditional

/-- `first … ? a : b`, with one blank between two tokens. -/
def inLine (first : String) (parts : List ConditionPart) (body : Forest)
    (laid : ConditionPart.Laid parts body) : Conditional where
  first
  parts
  whenTrue := "a"
  whenFalse := "b"
  body
  laid
  question := [Build.space, .token .question "?"]
  terminalQuestion := ⟨[Build.space], "?", isGap_space, rfl⟩
  colon := [Build.space, .token .colon ":"]
  terminalColon := ⟨[Build.space], ":", isGap_space, rfl⟩
  leading := []
  gapTrue := [Build.space]
  gapFalse := [Build.space]
  trailing := []
  gaps g hg := by
    simp only [List.mem_cons, List.not_mem_nil, or_false] at hg
    rcases hg with rfl | rfl | rfl | rfl
    exacts [isGap_nil, isGap_space, isGap_space, isGap_nil]

theorem terminal_is : Terminal .isKw [Build.space, .token .isKw "is"] :=
  ⟨[Build.space], "is", isGap_space, rfl⟩

theorem terminal_as : Terminal .asKw [Build.space, .token .asKw "as"] :=
  ⟨[Build.space], "as", isGap_space, rfl⟩

theorem ofKind?_less :
    Binding.ofKind? .less = some (Binding.leftward Binding.relationalPower) := rfl

/-- `x is T ? a : b` -/
def testedAtEnd : Conditional :=
  inLine "x" [.test .is (Build.identifierName "T").tree (.name (.simple .identifier))]
    _ (.test terminal_is isGap_space .nil)

/-- `x as A < y ? a : b` -/
def testedBeforeLess : Conditional :=
  inLine "x" [.test .as (Build.identifierName "A").tree (.name (.simple .identifier)),
    .operator (.mark .less _ ofKind?_less) rfl "y"]
    _ (.test terminal_as isGap_space (.operator isGap_space isGap_space .nil))

/-- `A<B?>` -/
def genericType : Tree :=
  .node .genericName (.token .identifier "A" :: ([] ++ [.node .typeArgumentList (.token .less "<" ::
    (([] ++ [.node .nullableType [(Build.identifierName "B").tree, .token .question "?"]]) ++
      [.token .greater ">"]))]))

theorem typeTree_genericType : TypeTree genericType :=
  .name (.simple (.generic isGap_nil (.last isGap_nil
    (.nullable (.name (.simple .identifier)) (terminal_token _ _))) (terminal_token _ _)))

/-- `x is A<B?> < y >> z ? a : b` -/
def testedInside : Conditional :=
  inLine "x" [.test .is genericType typeTree_genericType,
    .operator (.mark .less _ ofKind?_less) rfl "y", .operator .shiftRight rfl "z"]
    _ (.test terminal_is isGap_space (.operator isGap_space isGap_space
      (.operator isGap_space isGap_space .nil)))

end Conditional

/-- A test behind which `<` compares. -/
theorem parseExpression_conditional_testedInside :
    ConditionPart.Legible Conditional.testedInside.parts ∧
    (Token.contents "x is A<B?> < y >> z ? a : b").map Token.leaf =
      forestLeaves Conditional.testedInside.trees ∧
    ∃ node, parseExpression "x is A<B?> < y >> z ? a : b" = .ok node ∧
      node.kind = .conditionalExpression ∧
      (node.children.filter fun t => t.kind.isExpr).map Tree.text =
        ["x is A<B?> < y >> z", "a", "b"] := by
  have hclosed : ¬Grammar.EndsInName Conditional.genericType := by decide +kernel
  have hlegible : ConditionPart.Legible Conditional.testedInside.parts := by
    refine ⟨fun part hpart => Option.some.inj hpart ▸ id, ?_⟩
    refine List.isChain_cons_cons.mpr ⟨fun hname => absurd hname hclosed, ?_⟩
    exact List.isChain_cons_cons.mpr ⟨fun hname => hname.elim, List.isChain_singleton _⟩
  have htokens : (Token.contents "x is A<B?> < y >> z ? a : b").map Token.leaf =
      forestLeaves Conditional.testedInside.trees := by decide +kernel
  have htext : String.join ((forestLeaves Conditional.testedInside.condition).map Prod.snd) =
      "x is A<B?> < y >> z" := by decide +kernel
  refine ⟨hlegible, htokens, ?_⟩
  have hread := parseExpression_conditional Conditional.testedInside "x is A<B?> < y >> z ? a : b"
    hlegible htokens
  rwa [htext] at hread

/-- The reader of types takes the `?` behind a type that ends a condition, and the `<` behind a
name in one: neither text is read as the conditional expression it is. -/
theorem parseExpression_conditional_illegible :
    ((Token.contents "x is T ? a : b").map Token.leaf =
        forestLeaves Conditional.testedAtEnd.trees ∧
      ¬∃ node, parseExpression "x is T ? a : b" = .ok node) ∧
    (Token.contents "x as A < y ? a : b").map Token.leaf =
        forestLeaves Conditional.testedBeforeLess.trees ∧
      ¬∃ node, parseExpression "x as A < y ? a : b" = .ok node := by
  have hfails : (parseExpression "x is T ? a : b").isOk = false ∧
      (parseExpression "x as A < y ? a : b").isOk = false := by decide +kernel
  refine ⟨⟨by decide +kernel, ?_⟩, by decide +kernel, ?_⟩
  · rintro ⟨node, hok⟩
    rw [hok] at hfails
    cases hfails.1
  · rintro ⟨node, hok⟩
    rw [hok] at hfails
    cases hfails.2

end CSharpKit.Syntax
