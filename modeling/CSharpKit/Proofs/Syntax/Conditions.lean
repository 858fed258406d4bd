import CSharpKit.Proofs.Syntax.OperatorReading
import CSharpKit.Proofs.Syntax.ScanBounds
import Mathlib.Data.List.Chain

/-!
# Conditions

What stands before the question mark of a conditional expression: operands with binary
operators between them, and tests of types. A condition is read as one tree, whatever
trivia is in it, unless a type in it goes on with what follows: the reader of types takes
each `?` behind a type, and each `<` behind a name in one.
-/

namespace CSharpKit.Syntax

open Tree CSharpKit.Syntax.Parser
open Lookahead (Binding headKind? significant)

/-! ## Conditions -/

/-- The two words that stand between a value and a type. -/
inductive TypeTest where
  | is
  | as
  deriving DecidableEq

namespace TypeTest

def word : TypeTest → Kind
  | is => .isKw
  | as => .asKw

def node : TypeTest → Kind
  | is => .isExpression
  | as => .asExpression

end TypeTest

/-- What goes on with a condition behind its first operand. -/
inductive ConditionPart where
  /-- A binary operator and its right operand. -/
  | operator (op : Operator) (h : op.binding.node = .binaryExpression) (name : String)
  /-- `is` or `as`, and a type. -/
  | test (test : TypeTest) (type : Tree) (h : TypeTree type)

namespace ConditionPart

/-- How tight a part binds. -/
def power : ConditionPart → Nat
  | operator op _ _ => op.power
  | test _ _ _ => Binding.relationalPower

def IsTest : ConditionPart → Prop
  | operator .. => False
  | test .. => True

/-- The last token of the part is a name in a type. -/
def EndsInType : ConditionPart → Prop
  | operator .. => False
  | test _ type _ => Grammar.EndsInName type

/-- The first token of the part is `<`. -/
def Compares : ConditionPart → Prop
  | operator op _ _ => op.kinds = [.less]
  | test .. => False

/-- The trees of parts from left to right, with trivia between them. -/
inductive Laid : List ConditionPart → Forest → Prop
  | nil : Laid [] []
  | operator {op : Operator} {h : op.binding.node = .binaryExpression} {name : String}
      {parts : List ConditionPart} {g g' f : Forest} (hg : IsGap g) (hg' : IsGap g')
      (hf : Laid parts f) : Laid (.operator op h name :: parts)
        (g ++ (op.tokens ++ (g' ++ (Build.identifierName name).tree :: f)))
  | test {test : TypeTest} {type : Tree} {h : TypeTree type} {parts : List ConditionPart}
      {w g f : Forest} (hw : Terminal test.word w) (hg : IsGap g) (hf : Laid parts f) :
      Laid (.test test type h :: parts) (w ++ (g ++ type :: f))

/-- No part ends with a type that goes on with what stands behind it: a `?` behind all of
them, and a `<` behind one. -/
structure Legible (parts : List ConditionPart) : Prop where
  ended : ∀ part ∈ parts.getLast?, ¬part.IsTest
  apart : parts.IsChain fun part next => part.EndsInType → ¬next.Compares

theorem Legible.of_suffix {parts more : List ConditionPart} (h : Legible parts)
    (hmore : more <:+ parts) : Legible more := by
  obtain ⟨front, rfl⟩ := hmore
  refine ⟨fun part hpart => h.ended part ?_, h.apart.right_of_append⟩
  rw [List.getLast?_append, Option.mem_def.mp hpart]
  rfl

end ConditionPart

/-- The tokens of parts are ahead, and these behind them. -/
def PartsAhead (parts : List ConditionPart) (ts rest : List Token) : Prop :=
  ∃ f, ConditionPart.Laid parts f ∧ Spells f ts rest

variable {ts us rest mid : List Token} {parts : List ConditionPart} {op : Operator} {k : Kind}

section

variable {name : String} {hop : op.binding.node = .binaryExpression}

theorem PartsAhead.operator (h : PartsAhead (.operator op hop name :: parts) ts rest) :
    ∃ g g' mid us, IsGap g ∧ IsGap g' ∧ Spells (g ++ op.tokens) ts mid ∧
      Spells (g' ++ [(Build.identifierName name).tree]) mid us ∧ PartsAhead parts us rest := by
  obtain ⟨f, hlaid, hts⟩ := h
  cases hlaid with
  | @operator _ _ _ _ g g' f hg hg' hf =>
      rw [← List.append_assoc, ← List.singleton_append, ← List.append_assoc g'] at hts
      obtain ⟨mid, hmarks, hmore⟩ := spells_append.mp hts
      obtain ⟨us, hoperand, hmore⟩ := spells_append.mp hmore
      exact ⟨g, g', mid, us, hg, hg', hmarks, hoperand, f, hf, hmore⟩

theorem PartsAhead.test {test : TypeTest} {type : Tree} {htype : TypeTree type}
    (h : PartsAhead (.test test type htype :: parts) ts rest) :
    ∃ w g us, Terminal test.word w ∧ IsGap g ∧ Spells (w ++ (g ++ [type])) ts us ∧
      PartsAhead parts us rest := by
  obtain ⟨f, hlaid, hts⟩ := h
  cases hlaid with
  | @test _ _ _ _ w g f hw hg hf =>
      rw [← List.singleton_append, ← List.append_assoc g, ← List.append_assoc] at hts
      obtain ⟨us, htest, hmore⟩ := spells_append.mp hts
      exact ⟨w, g, us, hw, hg, htest, f, hf, hmore⟩

end

theorem PartsAhead.eq_of_nil (h : PartsAhead [] ts rest) : ts = rest := by
  obtain ⟨f, hlaid, hts⟩ := h
  cases hlaid with
  | nil => exact spells_nil.mp hts

/-! ## What stands behind an operand -/

/-- Kinds of tokens that stand behind an operand in a conditional expression. -/
def followsOperand (k : Kind) : Bool :=
  (Binding.ofKind? k).isSome || [Kind.question, .colon, .isKw, .asKw, .eof].contains k

theorem not_operandKind_of_follows (h : followsOperand k = true) :
    k ∉ operandKinds ∧ Lookahead.opensOperandOnly k = false := by
  rcases Bool.or_eq_true _ _ |>.mp h with h | h
  · obtain ⟨hparts, hopens⟩ := not_part_of_seam (.inr h)
    exact ⟨fun hk => hparts (List.mem_append_left _ hk), hopens⟩
  · have hkinds : ∀ k ∈ [Kind.question, .colon, .isKw, .asKw, .eof],
        k ∉ operandKinds ∧ Lookahead.opensOperandOnly k = false := by decide
    exact hkinds k (List.contains_iff_mem.mp h)

/-- The first token of parts, or the question mark behind them. -/
theorem PartsAhead.exists_headKind? (h : PartsAhead parts ts rest)
    (hrest : headKind? (significant rest) = some .question) :
    ∃ k, headKind? (significant ts) = some k ∧
      ((Binding.ofKind? k).isSome = true ∨ k ∈ [Kind.question, .isKw, .asKw]) ∧
      (k = .question → parts = []) ∧ (k = .less → ∃ part ∈ parts.head?, part.Compares) := by
  cases parts with
  | nil => exact ⟨.question, h.eq_of_nil ▸ hrest, .inr (by decide), fun _ => rfl, nofun⟩
  | cons part parts =>
      cases part with
      | operator op hop name =>
          obtain ⟨g, g', mid, us, hg, -, hmarks, -⟩ := h.operator
          obtain ⟨k, hk, hfirst, hsome⟩ := (operatorAhead_of_gap hg hmarks).isSome_headKind?
          refine ⟨k, hk, .inl hsome, ?_, fun hless => ⟨_, rfl, ?_⟩⟩
          · rintro rfl
            cases hsome
          · subst hless
            cases op with
            | mark k' binding h => exact congrArg (fun k => [k]) (Option.some.inj hfirst)
            | shiftRight | shiftRightAssign => cases hfirst
      | test test type htype =>
          obtain ⟨w, g, us, hw, -, htest, -⟩ := h.test
          obtain ⟨mid, hword, -⟩ := spells_append.mp htest
          have hkinds : test.word.isTrivia = false ∧ test.word ≠ .eof ∧ test.word ∈ [Kind.question, .isKw, .asKw] ∧
              test.word ≠ .question ∧ test.word ≠ .less := by cases test <;> decide
          obtain ⟨htrivia, heof, hmem, hquestion, hless⟩ := hkinds
          exact ⟨test.word, headKind?_of_kind (hw.kind htrivia hword) heof, .inr hmem,
            fun h => absurd h hquestion, fun h => absurd h hless⟩

/-! ## Names behind which no type arguments stand -/

/-- As far as a scan can see, nothing that may follow a generic name stands behind a `>`. -/
def ComparingAhead (ts : List Token) : Prop :=
  ∃ front a, ts = front ++ a ∧ Lookahead.Bounded a ∧ Comparing (front ++ a.take 1)

theorem ComparingAhead.not_atGenericName (h : ComparingAhead ts)
    (hname : Lookahead.kind ts = .identifier) : Lookahead.atGenericName ts = false := by
  obtain ⟨front, a, rfl, ha, hcomparing⟩ := h
  obtain ⟨k, hk, hbound⟩ := ha
  have hhead : headKind? (a.take 1) = headKind? a := by cases a <;> rfl
  have htake : Lookahead.Bounded (a.take 1) := ⟨k, hhead.trans hk, hbound⟩
  rw [Lookahead.alike_atGenericName ⟨k, hk, hbound⟩ htake (.refl front) hname (by rw [hhead])]
  exact hcomparing.not_atGenericName

theorem headKind?_significant_take (front : List Token) {a : List Token} (ha : Lookahead.Bounded a) :
    headKind? (significant (front ++ a.take 1)) = headKind? (significant (front ++ a)) := by
  have htake : headKind? (a.take 1) = headKind? a := by cases a <;> rfl
  obtain ⟨k, hk, hbound⟩ := ha
  have hboth := Lookahead.Alike.significant ⟨k, hk, hbound⟩ ⟨k, htake.trans hk, hbound⟩
    (.refl front)
  rcases hboth.cases with ⟨hts, hus⟩ | ⟨hhead, -⟩
  · rw [hts, hus, htake]
  · exact hhead.symm

theorem ComparingAhead.cons {t : Token} (h : ComparingAhead ts) (ht : t.kind = .greater →
    ∃ k, headKind? (significant ts) = some k ∧ Lookahead.followsGenericName k = false) :
    ComparingAhead (t :: ts) := by
  obtain ⟨front, a, rfl, ha, hcomparing⟩ := h
  refine ⟨t :: front, a, rfl, ha, hcomparing.cons fun hgreater => ?_⟩
  obtain ⟨k, hk, hfollows⟩ := ht hgreater
  exact ⟨k, (headKind?_significant_take front ha).trans hk, hfollows⟩

theorem ComparingAhead.gap {g : Forest} (hg : IsGap g) (h : Spells g ts mid)
    (hmid : ComparingAhead mid) : ComparingAhead ts := by
  induction g generalizing ts with
  | nil => exact spells_nil.mp h ▸ hmid
  | cons t g ih =>
      obtain ⟨k, text, rfl, hk⟩ := hg t List.mem_cons_self
      obtain ⟨us, hfirst, hmore⟩ := spells_cons.mp h
      obtain ⟨t, rfl, htree⟩ := spells_token.mp hfirst
      refine (ih (fun t ht => hg t (List.mem_cons_of_mem _ ht)) hmore).cons fun hgreater => ?_
      rw [← (Tree.token.inj htree).1, hgreater] at hk
      cases hk

theorem headKind?_of_name {g : Forest} {name : String} (hg : IsGap g)
    (h : Spells (g ++ [(Build.identifierName name).tree]) ts rest) :
    headKind? (significant ts) = some .identifier := by
  have hopens : Opens .identifier (Build.identifierName name).tree := (Opens.token _ _).node _
  exact headKind?_of_kind (hopens.kind_of_gap rfl hg h) (by decide)

/-- The first token in front of a name is trivia or the name. -/
theorem exists_headKind?_of_name {g : Forest} {name : String} (hg : IsGap g)
    (h : Spells (g ++ [(Build.identifierName name).tree]) ts rest) :
    ∃ k, headKind? ts = some k ∧ k ≠ .greater ∧ k ≠ .greaterEq := by
  cases g with
  | nil =>
      obtain ⟨t, rfl, htree⟩ := spells_token.mp (spells_node.mp h)
      exact ⟨t.kind, rfl, by simp [(Tree.token.inj htree).1]⟩
  | cons u g =>
      obtain ⟨k, text, rfl, hk⟩ := hg u List.mem_cons_self
      obtain ⟨mid, hfirst, -⟩ := spells_cons.mp h
      obtain ⟨t, rfl, htree⟩ := spells_token.mp hfirst
      refine ⟨t.kind, rfl, ?_⟩
      rw [(Tree.token.inj htree).1]
      constructor <;> rintro rfl <;> cases hk

theorem ComparingAhead.terminal {f : Forest} (hf : Terminal k f) (hk : k ≠ .greater)
    (h : Spells f ts rest) (hrest : ComparingAhead rest) : ComparingAhead ts := by
  obtain ⟨g, text, hg, rfl⟩ := hf
  obtain ⟨mid, hgap, htoken⟩ := spells_append.mp h
  obtain ⟨t, rfl, htree⟩ := spells_token.mp htoken
  exact .gap hg hgap (hrest.cons fun hgreater =>
    absurd ((Tree.token.inj htree).1.symm.trans hgreater) hk)

theorem ComparingAhead.name {g : Forest} {name : String} (hg : IsGap g)
    (h : Spells (g ++ [(Build.identifierName name).tree]) ts rest) (hrest : ComparingAhead rest) :
    ComparingAhead ts :=
  .terminal (k := .identifier) ⟨g, name, hg, rfl⟩ (by decide) (by simpa using spells_opened.mp h) hrest

/-- Neither an operator between operands nor a test looks like the end of type arguments. -/
theorem PartsAhead.comparingAhead (h : PartsAhead parts ts rest) (hrest : ComparingAhead rest) :
    ComparingAhead ts := by
  induction parts generalizing ts with
  | nil => exact h.eq_of_nil ▸ hrest
  | cons part parts ih =>
      cases part with
      | operator op hop name =>
          obtain ⟨g, g', mid, us, hg, hg', hmarks, hoperand, hparts⟩ := h.operator
          have hbehind := ComparingAhead.name hg' hoperand (ih hparts)
          have hnext := headKind?_of_name hg' hoperand
          obtain ⟨vs, hgap, hmarks⟩ := spells_append.mp hmarks
          refine .gap hg hgap ?_
          have hlast {t : Token} : ComparingAhead (t :: mid) := hbehind.cons fun _ => ⟨_, hnext, rfl⟩
          cases operatorAhead_of_spells hmarks with
          | mark => exact hlast
          | shiftRight _ hsecond | shiftRightAssign _ hsecond =>
              exact hlast.cons fun _ => ⟨_, (headKind?_cons (by rw [hsecond]; rfl)).trans
                (congrArg some hsecond), rfl⟩
      | test test type htype =>
          obtain ⟨w, g, us, ⟨g', text, hg', rfl⟩, -, htest, -⟩ := h.test
          rw [List.append_assoc] at htest
          obtain ⟨mid, hgap, hmore⟩ := spells_append.mp htest
          obtain ⟨more, hword, -⟩ := spells_cons.mp hmore
          obtain ⟨t, rfl, htree⟩ := spells_token.mp hword
          have hkind := (Tree.token.inj htree).1
          have hbound : Lookahead.boundsScan test.word = true ∧ test.word ≠ .greater := by
            cases test <;> decide
          refine .gap hg' hgap ⟨[], t :: more, rfl, ⟨t.kind, rfl, hkind ▸ hbound.1⟩, ?_⟩
          rintro t' more' hsuffix hgreater
          obtain rfl : t' = t := List.mem_singleton.mp (hsuffix.subset List.mem_cons_self)
          exact absurd (hkind.symm.trans hgreater) hbound.2

/-! ## Reading -/

namespace Grammar

variable {s s' : ParserState} {power : Nat} {rules : Rules} {left : Tree}

/-- Operators of conditions bind tighter than the conditional operator. -/
theorem conditionalPower_lt (h : op.binding.node = .binaryExpression) :
    Binding.conditionalPower < op.binding.left ∧ Binding.conditionalPower < op.binding.right := by
  cases op with
  | shiftRight => decide
  | shiftRightAssign => cases h
  | mark k binding hk =>
      unfold Binding.ofKind? at hk
      split at hk <;> cases hk <;> first | decide | cases h

/-- A test takes the tree since the mark and a type. -/
theorem run_infixPart_test (rules : Rules) (left : Tree) {test : TypeTest} {w g : Forest} {u : Tree}
    (hs : Sound s) (hpower : power ≤ Binding.relationalPower) (htype : TypeTree u)
    (hw : Terminal test.word w) (hg : IsGap g) (h : Spells (w ++ (g ++ [u])) ts rest)
    (hends : Ends u rest) (hrest : Lookahead.kind rest ≠ .identifier) :
    (infixPart rules power s.builder.mark).run (reading s [left] ts) =
      (true, reading s [.node test.node (left :: (w ++ (g ++ [u])))] rest) := by
  obtain ⟨mid, hword, hmore⟩ := spells_append.mp h
  have hplain : IsPlain test.word := by cases test <;> exact ⟨rfl, by decide⟩
  have hkind : Lookahead.kind ts = test.word := hw.kind hplain.1 hword
  have hbump := run_bump (s := opening (reading s [left] ts) test.node s.builder.mark) hw hplain hword
  rw [reading_opening, reading_reading] at hbump
  have htypeRun := run_type_of_ends (s := opening (reading s ([left] ++ w) mid) test.node
    s.builder.mark) htype sound_opening_reading hg hmore hends
  rw [reading_opening, reading_reading, List.append_assoc] at htypeRun
  rw [infixPart, peek, run_ask_bind, rest_reading, hkind]
  cases test with
  | is =>
      have hat : Lookahead.atType mid = true := by
        obtain ⟨k, hk, hopens⟩ := htype.opens
        have hmid : Lookahead.kind mid = k :=
          hopens.kind_of_gap (isPlain_of_opensType hk).1 hg hmore
        rw [Lookahead.atType, hmid]
        exact hk
      have hbody : (bump >>= fun _ => ask Lookahead.atType >>= fun atType =>
          if atType = true then type >>= fun _ => eat .identifier >>= fun _ => pure ()
          else rules (.expression (Binding.relationalPower + 1)) : Parser Unit).run
            (opening (reading s [left] ts) TypeTest.is.node s.builder.mark) = ((), opening
              (reading s ([left] ++ (w ++ (g ++ [u]))) rest) TypeTest.is.node s.builder.mark) := by
        rw [run_bind hbump, run_ask_bind]
        show (if Lookahead.atType mid = true then _ else _ : Parser Unit).run _ = _
        rw [if_pos hat, run_bind htypeRun, run_bind (run_eat_of_not hrest)]
        rfl
      have hnode := run_nodeFrom hs hbody
      show (isPart rules power s.builder.mark).run _ = _
      rw [isPart, if_neg (Nat.not_lt_of_le hpower)]
      exact run_bind hnode
  | as =>
      have hbody : (bump >>= fun _ => type).run
          (opening (reading s [left] ts) TypeTest.as.node s.builder.mark) = ((), opening
            (reading s ([left] ++ (w ++ (g ++ [u]))) rest) TypeTest.as.node s.builder.mark) := by
        rw [run_bind hbump]
        exact htypeRun
      have hnode := run_nodeFrom hs hbody
      show (asPart power s.builder.mark).run _ = _
      rw [asPart, if_neg (Nat.not_lt_of_le hpower)]
      exact run_bind hnode

/-- A part that binds looser than asked ends the loop, and so does a question mark. -/
theorem run_infixPart_of_parts (rules : Rules) (start : Nat) (h : PartsAhead parts s.rest rest)
    (hrest : headKind? (significant rest) = some .question)
    (hloose : ∀ part ∈ parts.head?, part.power < power)
    (hpower : Binding.conditionalPower < power) :
    (infixPart rules power start).run s = (false, s) := by
  cases parts with
  | nil =>
      obtain rfl := h.eq_of_nil
      rw [infixPart, peek, run_ask_bind, kind_of_headKind? hrest]
      show (conditionalPart rules power start).run s = _
      rw [conditionalPart, if_pos hpower]
      rfl
  | cons part parts =>
      cases part with
      | operator op hop name =>
          obtain ⟨g, g', mid, us, hg, hg', hmarks, hoperand, -⟩ := h.operator
          obtain ⟨k, hmid, hk⟩ := exists_headKind?_of_name hg' hoperand
          obtain ⟨hseam, hbinding, -⟩ := atSeam_of_tokens hg hmarks hmid hk
          refine run_infixPart_of_loosens hseam fun binding hmem => ?_
          obtain rfl := Option.some.inj (hbinding.symm.trans hmem)
          exact hloose _ rfl
      | test test type htype =>
          obtain ⟨w, g, us, hw, -, htest, -⟩ := h.test
          obtain ⟨mid, hword, -⟩ := spells_append.mp htest
          have hlt : Binding.relationalPower < power := hloose _ rfl
          have hkind : Lookahead.kind s.rest = test.word :=
            hw.kind (by cases test <;> rfl) hword
          rw [infixPart, peek, run_ask_bind, hkind]
          cases test with
          | is =>
              show (isPart rules power start).run s = _
              rw [isPart, if_pos hlt]
              rfl
          | as =>
              show (asPart power start).run s = _
              rw [asPart, if_pos hlt]
              rfl

/-- Behind a type in a condition stands nothing that goes on with it. -/
theorem ends_of_legible {test : TypeTest} {u : Tree} {hu : TypeTree u}
    (hquestion : headKind? (significant rest) = some .question)
    (hlegible : ConditionPart.Legible (.test test u hu :: parts)) (h : PartsAhead parts ts rest) :
    Ends u ts ∧ Lookahead.kind ts ≠ .identifier := by
  obtain ⟨k, hk, hkinds, hend, hless⟩ := h.exists_headKind? hquestion
  have hne : parts ≠ [] := by
    rintro rfl
    exact hlegible.ended _ rfl trivial
  have hnot : k ∉ [Kind.question, .lBracket, .dot, .colonColon] ∧ k ≠ .identifier := by
    rcases hkinds with hsome | hmem
    · have hnone : ∀ k ∈ [Kind.question, .lBracket, .dot, .colonColon],
          Binding.ofKind? k = none := by decide
      constructor
      · intro hk
        rw [hnone k hk] at hsome
        cases hsome
      · rintro rfl
        cases hsome
    · have hquestion : k ≠ .question := fun h => hne (hend h)
      have hwords : ∀ k ∈ [Kind.question, .isKw, .asKw], k ≠ .question →
          k ∉ [Kind.question, .lBracket, .dot, .colonColon] ∧ k ≠ .identifier := by decide
      exact hwords k hmem hquestion
  rw [Ends, kind_of_headKind? hk]
  refine ⟨⟨hnot.1, fun hlt hname => ?_⟩, hnot.2⟩
  obtain ⟨part, hpart, hcompares⟩ := hless hlt
  obtain ⟨more, rfl⟩ := List.head?_eq_some_iff.mp hpart
  exact (List.isChain_cons_cons.mp hlegible.apart).1 hname hcompares

/-- From the tree `left` in front of parts a loop over operators comes to the tree `node`, with
the parts taken in, and stops before one that binds looser. -/
structure Climbs (rest : List Token) (power : Nat) (parts : List ConditionPart) (left : Tree)
    (ts : List Token) (node : Tree) (behind : List Token) (more : List ConditionPart) : Prop where
  leaves : node.leaves ++ behind.map Token.leaf = left.leaves ++ ts.map Token.leaf
  expr : left.kind.isExpr = true → node.kind.isExpr = true
  suffix : behind <:+ ts
  ahead : PartsAhead more behind rest
  parts : more <:+ parts
  loose : ∀ part ∈ more.head?, part.power < power
  ends : ∀ s s' : ParserState, Sound s →
    LoopEnds (infixPart whole power s.builder.mark) (reading s [node] behind) s' →
    LoopEnds (infixPart whole power s.builder.mark) (reading s [left] ts) s'

section

variable {name : String} {node : Tree} {behind : List Token} {more : List ConditionPart} {g : Forest}

/-- A name is an operand, and the loop over operators goes on behind it. -/
theorem run_expression_of_name (hg : IsGap g) (hgap : Spells g s.rest mid)
    (hname : Spells [(Build.identifierName name).tree] mid ts)
    (hk : headKind? (significant ts) = some k) (hfollows : followsOperand k = true)
    (hgeneric : Lookahead.atGenericName mid = false)
    (hend : LoopEnds (infixPart whole power (reading s g mid).builder.mark)
      (reading s (g ++ [(Build.identifierName name).tree]) ts) s') :
    (whole (.expression power)).run s = ((), s') := by
  have hsolid : Solid mid := ((Opens.token .identifier name).node []).solid rfl hname
  obtain ⟨hkinds, hopens⟩ := not_operandKind_of_follows hfollows
  have hunary := run_unary_name whole (s := reading s g mid) hname hk hkinds hopens
    hgeneric
  rw [whole_run]
  show (expressionAbove whole power).run s = _
  rw [expressionAbove, run_bind (run_mark_of_gap hg hgap hsolid),
    run_bind ((whole_run .unary _).trans hunary), run_bind run_grownSince, if_pos rfl,
    reading_reading]
  exact hend.run

/-- The same in front of parts. -/
theorem run_expression_of_parts (hg : IsGap g) (hgap : Spells g s.rest mid)
    (hname : Spells [(Build.identifierName name).tree] mid ts) (hparts : PartsAhead parts ts rest)
    (hquestion : headKind? (significant rest) = some .question) (hcomparing : ComparingAhead rest)
    (hend : LoopEnds (infixPart whole power (reading s g mid).builder.mark)
      (reading s (g ++ [(Build.identifierName name).tree]) ts) s') :
    (whole (.expression power)).run s = ((), s') := by
  obtain ⟨k, hk, hkinds, -⟩ := hparts.exists_headKind? hquestion
  have hwords : ∀ k ∈ [Kind.question, .isKw, .asKw], followsOperand k = true := by decide
  have hfollows : followsOperand k = true :=
    hkinds.elim (fun hsome => by rw [followsOperand, hsome, Bool.true_or]) (hwords k)
  have hkind : Lookahead.kind mid = .identifier :=
    ((Opens.token .identifier name).node []).kind rfl hname
  have hgeneric := (ComparingAhead.name (g := []) isGap_nil hname
    (hparts.comparingAhead hcomparing)).not_atGenericName hkind
  exact run_expression_of_name hg hgap hname hk hfollows hgeneric hend

/-- A name in front of parts is read with those that bind as tight as asked. -/
theorem run_expression_of_climbs (hg : IsGap g)
    (hquestion : headKind? (significant rest) = some .question) (hcomparing : ComparingAhead rest)
    (hpower : Binding.conditionalPower < power)
    (hname : Spells (g ++ [(Build.identifierName name).tree]) s.rest ts)
    (hparts : PartsAhead parts ts rest) (hs : Sound s)
    (h : Climbs rest power parts (Build.identifierName name).tree ts node behind more) :
    (whole (.expression power)).run s = ((), reading s (g ++ [node]) behind) := by
  obtain ⟨mid, hgap, hoperand⟩ := spells_append.mp hname
  have hlast := run_infixPart_of_parts whole (reading s g mid).builder.mark
    (s := reading (reading s g mid) [node] behind) h.ahead hquestion h.loose hpower
  have hend := h.ends (reading s g mid) _ (sound_reading hs) (LoopEnds.last hlast)
  rw [reading_reading, reading_reading] at hend
  exact run_expression_of_parts hg hgap hoperand hparts hquestion hcomparing hend

/-- In front of a part that binds looser the loop stays where it is. -/
theorem Climbs.refl (h : PartsAhead parts ts rest)
    (hloose : ∀ part ∈ parts.head?, part.power < power) :
    Climbs rest power parts left ts left ts parts where
  leaves := rfl
  expr := id
  suffix := List.suffix_refl _
  ahead := h
  parts := List.suffix_refl _
  loose := hloose
  ends _ _ _ hend := hend

/-- An operator takes the tree in front of it, and the parts of its right operand. -/
theorem Climbs.operator {g' : Forest} {right : Tree} {between : List ConditionPart}
    {ts₁ ts₂ : List Token} {hop : op.binding.node = .binaryExpression} (hg : IsGap g)
    (hg' : IsGap g') (hquestion : headKind? (significant rest) = some .question)
    (hcomparing : ComparingAhead rest) (hpower : power ≤ op.power)
    (hmarks : Spells (g ++ op.tokens) ts mid)
    (hname : Spells (g' ++ [(Build.identifierName name).tree]) mid ts₁)
    (hparts : PartsAhead parts ts₁ rest)
    (hright : Climbs rest op.binding.right parts (Build.identifierName name).tree ts₁ right ts₂ between)
    (h : Climbs rest power between
      (.node op.binding.node (left :: (g ++ op.tokens ++ (g' ++ [right])))) ts₂ node behind more) :
    Climbs rest power (.operator op hop name :: parts) left ts node behind more where
  leaves := by
    have hright := hright.leaves
    rw [h.leaves, hmarks.map_leaf, hname.map_leaf]
    simp only [Tree.leaves, forestLeaves, forestLeaves_append, List.append_assoc, List.append_nil]
    rw [hright]
  expr _ := h.expr (congrArg Kind.isExpr hop)
  suffix := ((h.suffix.trans hright.suffix).trans hname.suffix).trans hmarks.suffix
  ahead := h.ahead
  parts := (h.parts.trans hright.parts).trans (List.suffix_cons _ _)
  loose := h.loose
  ends s s' hs hend := by
    obtain ⟨k, hmid, hk⟩ := exists_headKind?_of_name hg' hname
    have hstep := run_infixPart_of_tokens left hs hpower hg hmarks hmid hk
      fun s hs hrest => run_expression_of_climbs hg' hquestion hcomparing
        (conditionalPower_lt hop).2 (hrest ▸ hname) hparts hs hright
    refine LoopEnds.next hstep ?_ (h.ends s s' hs hend)
    have hlength := hname.length
    have hlength' := hright.suffix.length_le
    have hsuffix := hmarks.suffix.length_le
    simp only [forestLeaves_append, forestLeaves, Build.identifierName, Node.tree, Tree.leaves,
      List.length_append, List.length_cons, List.length_nil] at hlength
    simp only [rest_reading]
    omega

/-- A test takes the tree in front of it. -/
theorem Climbs.test {test : TypeTest} {u : Tree} {hu : TypeTree u} {w : Forest}
    (hw : Terminal test.word w) (hg : IsGap g)
    (hquestion : headKind? (significant rest) = some .question)
    (hlegible : ConditionPart.Legible (.test test u hu :: parts))
    (hpower : power ≤ Binding.relationalPower) (htest : Spells (w ++ (g ++ [u])) ts us)
    (hparts : PartsAhead parts us rest)
    (h : Climbs rest power parts (.node test.node (left :: (w ++ (g ++ [u])))) us node behind more) :
    Climbs rest power (.test test u hu :: parts) left ts node behind more where
  leaves := by
    rw [h.leaves, htest.map_leaf]
    simp only [Tree.leaves, forestLeaves, forestLeaves_append, List.append_assoc]
  expr _ := h.expr (by cases test <;> rfl)
  suffix := h.suffix.trans htest.suffix
  ahead := h.ahead
  parts := h.parts.trans (List.suffix_cons _ _)
  loose := h.loose
  ends s s' hs hend := by
    obtain ⟨hends, hident⟩ := ends_of_legible hquestion hlegible hparts
    have hstep := run_infixPart_test whole left hs hpower hu hw hg htest hends hident
    refine LoopEnds.next hstep ?_ (h.ends s s' hs hend)
    have hlength := htest.length
    have hpos := List.length_pos_of_ne_nil hw.ne_nil
    rw [forestLeaves_append, List.length_append] at hlength
    simp only [rest_reading]
    omega

/-- A loop over operators takes in the parts up to one that binds looser. -/
theorem exists_climbs (hquestion : headKind? (significant rest) = some .question)
    (hcomparing : ComparingAhead rest) (hlegible : ConditionPart.Legible parts)
    (h : PartsAhead parts ts rest) (left : Tree) (power : Nat) :
    ∃ node behind more, Climbs rest power parts left ts node behind more := by
  -- By the number of parts: the right operand of an operator takes some of them, and the loop
  -- goes on with the others.
  induction hn : parts.length using Nat.strong_induction_on generalizing parts ts left power with
  | h n ih =>
      subst hn
      have hstop : (∀ part ∈ parts.head?, part.power < power) →
          ∃ node behind more, Climbs rest power parts left ts node behind more :=
        fun hloose => ⟨left, ts, parts, .refl h hloose⟩
      cases parts with
      | nil => exact hstop fun part hpart => absurd hpart (Option.not_mem_none part)
      | cons part parts =>
          by_cases hpower : part.power < power
          · exact hstop fun part' hpart => Option.some.inj hpart ▸ hpower
          have hpower := Nat.le_of_not_lt hpower
          have htail := hlegible.of_suffix (List.suffix_cons part parts)
          cases part with
          | operator op hop name =>
              obtain ⟨g, g', mid, ts₁, hg, hg', hmarks, hname, hparts⟩ := h.operator
              obtain ⟨right, ts₂, between, hright⟩ := ih _ (Nat.lt_succ_self _) htail hparts
                (Build.identifierName name).tree op.binding.right rfl
              obtain ⟨node, behind, more, hclimbs⟩ := ih between.length
                (Nat.lt_succ_of_le hright.parts.length_le) (htail.of_suffix hright.parts) hright.ahead
                (.node op.binding.node (left :: (g ++ op.tokens ++ (g' ++ [right])))) power rfl
              exact ⟨node, behind, more, .operator hg hg' hquestion hcomparing hpower hmarks hname
                hparts hright hclimbs⟩
          | test test u hu =>
              obtain ⟨w, g, us, hw, hg, htest, hparts⟩ := h.test
              obtain ⟨node, behind, more, hclimbs⟩ := ih _ (Nat.lt_succ_self _) htail hparts
                (.node test.node (left :: (w ++ (g ++ [u])))) power rfl
              exact ⟨node, behind, more, .test hw hg hquestion hlegible hpower htest hparts hclimbs⟩

end

end Grammar

end CSharpKit.Syntax
