import CSharpKit.Proofs.Syntax.OperatorReading
import CSharpKit.Proofs.Syntax.Words

/-!
# Rows of operands

Operands with operators between them, in a row with one blank on each side of an operator,
are read as the grouping that respects the operators. The blanks keep the tokens apart:
no operator has a blank in it, and the two tokens of a shift stay two, since no operator
begins with `>>`.
-/

namespace CSharpKit.Syntax

open Tree Token CSharpKit.Syntax.Parser
open Lookahead (Binding)
open Text (isBlank)

/-! ## Tokens -/

theorem mem_operators_spelling {k : Kind} (h : (Binding.ofKind? k).isSome = true) :
    ((spelling k).toList, k) ∈ operators := by
  rw [spelling, String.toList_ofList]
  unfold Binding.ofKind? at h
  split at h
  all_goals first | decide | cases h

/-- No operator goes on from one between operands with a blank, and none begins with `>>`. -/
theorem joins_of_binding : ∀ mark ∈ operators, (Binding.ofKind? mark.2).isSome = true →
    mark.2 ≠ .questionDot ∧ ∀ entry ∈ operators, mark.1 <+: entry.1 → entry.1 ≠ mark.1 →
      entry.1[mark.1.length]? ≠ some ' ' ∧
        (mark.2 = .greater → entry.1[mark.1.length]? ≠ some '>') := by decide

theorem opens_of_binding : ∀ mark ∈ operators, (Binding.ofKind? mark.2).isSome = true →
    (mark.1.head?.any fun c => ['<', '>', ',', '.', '?', '[', ']', ':', '*', '/', '%', '+', '-', '=',
      '!', '&', '^', '|'].contains c && c != '.') = true ∧
        (mark.1.head? = some '/' → mark.1 = ['/'] ∨ mark.1 = ['/', '=']) := by decide

/-- A token of an operator is cut off before a blank, and `>` before a second one. -/
theorem cutsOff_operator {k : Kind} (hk : (Binding.ofKind? k).isSome = true) {rest : List Char}
    (hrest : rest.head? = some ' ' ∨ k = .greater ∧ rest.head? = some '>') :
    CutsOff k (spelling k) rest := by
  intro lineStart
  have hmem := mem_operators_spelling hk
  obtain ⟨hne, hjoins⟩ := joins_of_binding _ hmem hk
  obtain ⟨hopens, hslash⟩ := opens_of_binding _ hmem hk
  have hscan : scanOperator ((spelling k).toList ++ rest) = (k, (spelling k).toList.length - 1) := by
    refine scanOperator_of_mem hmem hne fun entry hentry hlonger hdiffers => ?_
    obtain ⟨hblank, hgreater⟩ := hjoins entry hentry hlonger hdiffers
    rcases hrest with hrest | ⟨rfl, hrest⟩
    · rwa [hrest]
    · rw [hrest]
      exact hgreater rfl
  cases hchars : (spelling k).toList with
  | nil => simp [hchars] at hopens
  | cons c cs =>
      simp only [hchars, List.head?_cons, Option.any_some, Bool.and_eq_true,
        List.contains_iff_mem, bne_iff_ne, Option.some.injEq] at hopens hslash
      rw [hchars] at hscan
      refine ⟨c, cs, by rw [← hchars, String.ofList_toList], ?_⟩
      rw [scan_mark (List.mem_append_left ['(', ')', ';'] hopens.1) lineStart (fun hc => ?_)
        (fun hc => absurd hc hopens.2)]
      · simpa using hscan
      · have hcomment : ∀ d, d = ' ' ∨ d = '=' → ∀ more, scanComment (d :: more) = none := by
          rintro d (rfl | rfl) more <;> rfl
        rcases hslash hc with heq | heq
        · obtain ⟨-, rfl⟩ := List.cons.inj heq
          rcases hrest with hrest | ⟨rfl, -⟩
          · obtain ⟨more, rfl⟩ := List.head?_eq_some_iff.mp hrest
            exact hcomment ' ' (.inl rfl) more
          · exact absurd (hchars.trans heq) (by decide)
        · obtain ⟨-, rfl⟩ := List.cons.inj heq
          exact hcomment '=' (.inr rfl) rest

/-! ## Rows -/

namespace Row

/-- The text of a row, with one blank on each side of an operator. -/
def text (row : Row) : String :=
  row.1 ++ String.join (row.2.map fun item => " " ++ item.1.text ++ " " ++ item.2)

/-- The leaves of a row. -/
def leaves (row : Row) : List (Kind × String) :=
  (.identifier, row.1) :: row.2.flatMap fun item => (.whitespace, " ") ::
    (item.1.kinds.map (fun k => (k, spelling k)) ++ [(.whitespace, " "), (.identifier, item.2)])

end Row

theorem leaves_tokens (op : Operator) :
    forestLeaves op.tokens = op.kinds.map fun k => (k, spelling k) := by
  rw [Operator.tokens]
  generalize op.kinds = ks
  induction ks with
  | nil => rfl
  | cons k ks ih => rw [List.map_cons, forestLeaves, ih]; rfl

theorem leaves_node (e : Grouping) : e.node.tree.leaves = e.row.leaves := by
  induction e with
  | operand name => rfl
  | join left op right ihleft ihright =>
      have hjoin : (Grouping.join left op right).node.tree.leaves = left.node.tree.leaves ++
          (.whitespace, " ") :: (forestLeaves op.tokens ++
            (.whitespace, " ") :: right.node.tree.leaves) := by
        simp [Grouping.node, Node.tree, Tree.leaves, forestLeaves, Build.space]
      rw [hjoin, ihleft, ihright, leaves_tokens]
      simp [Row.leaves, Grouping.row]

theorem text_eq (row : Row) : row.text = String.join (row.leaves.map (·.2)) := by
  apply String.toList_injective
  simp [Row.text, Row.leaves, Operator.text, String.toList_join, List.flatMap_map,
    List.flatMap_assoc]

theorem not_isBlank_spelling {k : Kind} (hk : (Binding.ofKind? k).isSome = true) :
    ∃ c cs, (spelling k).toList = c :: cs ∧ isBlank c = false := by
  have hblanks : (['<', '>', ',', '.', '?', '[', ']', ':', '*', '/', '%', '+', '-', '=', '!', '&',
      '^', '|'].all fun c => !isBlank c) = true := by decide +kernel
  obtain ⟨c, hc, hopens⟩ := (Option.any_eq_true _ _).mp
    (opens_of_binding _ (mem_operators_spelling hk) hk).1
  obtain ⟨cs, hchars⟩ := List.head?_eq_some_iff.mp hc
  have hmem := List.contains_iff_mem.mp (Bool.and_eq_true_iff.mp hopens).1
  exact ⟨c, cs, hchars, by simpa using List.all_eq_true.mp hblanks c hmem⟩

/-- A blank is cut off before a character that is none. -/
theorem separable_space {ls : List (Kind × String)} (h : Separable ls)
    (hnext : ∃ c cs, chars ls = c :: cs ∧ isBlank c = false) :
    Separable ((.whitespace, " ") :: ls) := by
  obtain ⟨c, cs, hchars, hblank⟩ := hnext
  refine ⟨IsPiece.space.cutsOff fun d hd => ?_, h⟩
  obtain rfl : c = d := by simpa [hchars] using hd
  simp [endsBefore, hblank]

/-- The tokens of an operator are cut off each other and before a blank. -/
theorem separable_operator (op : Operator) {ls : List (Kind × String)} (h : Separable ls)
    (hblank : (chars ls).head? = some ' ') :
    Separable ((.whitespace, " ") :: (op.kinds.map (fun k => (k, spelling k)) ++ ls)) := by
  have hlast {k : Kind} (hk : (Binding.ofKind? k).isSome = true) :
      Separable ((k, spelling k) :: ls) := ⟨cutsOff_operator hk (.inl hblank), h⟩
  have hfirst {k : Kind} {ls : List (Kind × String)} (hk : (Binding.ofKind? k).isSome = true)
      (h : Separable ((k, spelling k) :: ls)) :
      Separable ((.whitespace, " ") :: (k, spelling k) :: ls) := by
    obtain ⟨c, cs, hchars, hc⟩ := not_isBlank_spelling hk
    exact separable_space h ⟨c, cs ++ chars ls, by rw [chars_cons, hchars, List.cons_append], hc⟩
  have hgreater {k : Kind} (hk : (Binding.ofKind? k).isSome = true)
      (hopens : (spelling k).toList.head? = some '>') :
      Separable ((.greater, spelling .greater) :: (k, spelling k) :: ls) := by
    refine ⟨cutsOff_operator rfl (.inr ⟨rfl, ?_⟩), hlast hk⟩
    obtain ⟨cs, hchars⟩ := List.head?_eq_some_iff.mp hopens
    rw [chars_cons, hchars]
    rfl
  cases op with
  | mark k binding hk => exact hfirst (by rw [hk]; rfl) (hlast (by rw [hk]; rfl))
  | shiftRight => exact hfirst rfl (hgreater rfl rfl)
  | shiftRightAssign => exact hfirst rfl (hgreater rfl rfl)

theorem not_isBlank_of_isName {name : String} (h : IsName name) :
    ∃ c cs, name.toList = c :: cs ∧ isBlank c = false := by
  cases hchars : name.toList with
  | nil => exact absurd hchars (IsPiece.word h.isWord).ne_empty
  | cons c cs =>
      have hends := (h.isWord.endsBefore (c := c) (by rw [hchars]; rfl)).1
      exact ⟨c, cs, rfl, by simpa [endsBefore] using hends⟩

theorem separable_row {first : String} {more : List (Operator × String)} (hfirst : IsName first)
    (hmore : ∀ item ∈ more, IsName item.2) : Separable (Row.leaves (first, more)) := by
  induction more generalizing first with
  | nil => exact ⟨(IsPiece.word hfirst.isWord).cutsOff nofun, trivial⟩
  | cons item more ih =>
      obtain ⟨op, second⟩ := item
      have hsecond : IsName second := hmore (op, second) List.mem_cons_self
      have hrest := ih hsecond fun item hitem => hmore item (List.mem_cons_of_mem _ hitem)
      have hleaves : Row.leaves (first, (op, second) :: more) = (.identifier, first) ::
          (.whitespace, " ") :: (op.kinds.map (fun k => (k, spelling k)) ++
            (.whitespace, " ") :: Row.leaves (second, more)) := by
        simp [Row.leaves]
      obtain ⟨c, cs, hchars, hblank⟩ := not_isBlank_of_isName hsecond
      have hoperand := separable_space hrest
        ⟨c, _, by rw [Row.leaves, chars_cons, hchars, List.cons_append], hblank⟩
      rw [hleaves]
      refine ⟨(IsPiece.word hfirst.isWord).cutsOff fun d hd => ?_, separable_operator op hoperand rfl⟩
      obtain rfl : ' ' = d := by simpa using hd
      decide +kernel

/-! ## Reading -/

/-- Operands with operators between them are read as their only grouping that respects the
operators. -/
theorem parseExpression_row (first : String) (more : List (Operator × String))
    (hfirst : IsName first) (hmore : ∀ item ∈ more, IsName item.2) :
    ∃ e : Grouping, parseExpression (Row.text (first, more)) = .ok e.node ∧
      ∀ e' : Grouping, e'.Respects ∧ e'.row = (first, more) ↔ e' = e := by
  refine ⟨.ofRow first more, ?_, fun e' => Grouping.respects_iff⟩
  generalize he : Grouping.ofRow first more = e
  obtain ⟨hrespects, hrow⟩ := Grouping.respects_iff.mpr he.symm
  have hleaves : (contents (Row.text (first, more))).map Token.leaf = e.node.tree.leaves := by
    rw [leaves_node, hrow]
    exact map_leaf_contents ((separable_row hfirst hmore).scans true) (text_eq _)
  exact parseExpression_of_grouping hrespects hleaves

/-- A row where `>` and `>>` follow a `<`, and both ways to group occur. -/
def mixedRow : Row := ("x", [(.mark .less _ rfl, "y"), (.shiftRight, "z"), (.mark .greater _ rfl, "w"),
  (.mark .questionQuestion _ rfl, "v"), (.mark .questionQuestion _ rfl, "u"),
  (.shiftRightAssign, "t")])

theorem parseExpression_row_mixed :
    mixedRow.text = "x < y >> z > w ?? v ?? u >>= t" ∧
    (IsName "x" ∧ ∀ item ∈ mixedRow.2, IsName item.2) ∧
    ∃ e : Grouping, parseExpression mixedRow.text = .ok e.node ∧
      ∀ e' : Grouping, e'.Respects ∧ e'.row = mixedRow ↔ e' = e := by
  have hfirst : IsName "x" := by decide +kernel
  have hmore : ∀ item ∈ mixedRow.2, IsName item.2 := by
    have hnames : ∀ name ∈ ["y", "z", "w", "v", "u", "t"], IsName name := by decide +kernel
    exact fun item hitem => hnames item.2 (List.mem_map_of_mem hitem)
  exact ⟨by decide +kernel, ⟨hfirst, hmore⟩, parseExpression_row "x" mixedRow.2 hfirst hmore⟩

end CSharpKit.Syntax
