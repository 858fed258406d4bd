import CSharpKit.Syntax.Build

/-!
# Operators between operands

How operands with operators between them are grouped. A grouping respects the operators
if each stands below those that bind tighter, or as tight and in the direction in
which they group. Each row of operands has just one such grouping, and it is made by
pushing operands in front of it, one by one.
-/

namespace CSharpKit.Syntax

open Lookahead (Binding)

/-! ## Operators -/

/-- The text of a token that is always spelled the same. -/
def Token.spelling (k : Kind) : String :=
  String.ofList (((operators.find? (·.2 == k)).map (·.1)).getD [])

/-- An operator between two operands. -/
inductive Operator where
  /-- An operator of one token. -/
  | mark (kind : Kind) (binding : Binding) (h : Binding.ofKind? kind = some binding)
  /-- `>>` -/
  | shiftRight
  /-- `>>=` -/
  | shiftRightAssign

namespace Operator

def binding : Operator → Binding
  | mark _ binding _ => binding
  | shiftRight => .shift
  | shiftRightAssign => .assignment

/-- The tokens of an operator, which stand side by side. -/
def kinds : Operator → List Kind
  | mark kind _ _ => [kind]
  | shiftRight => [.greater, .greater]
  | shiftRightAssign => [.greater, .greaterEq]

def tokens (op : Operator) : Forest := op.kinds.map fun k => .token k (Token.spelling k)

def text (op : Operator) : String := String.join (op.kinds.map Token.spelling)

/-- How tight an operator binds. -/
def power (op : Operator) : Nat := op.binding.left

/-- Only `??` and assignments group from the right. -/
def groupsRight (op : Operator) : Bool :=
  op.kinds == [.questionQuestion] || op.binding.node == .assignmentExpression

variable {op inner : Operator}

/-- The operators that group from the right bind with powers of their own. -/
theorem groupsRight_iff (op : Operator) :
    op.groupsRight = (op.power == 5 || op.power == 1) ∧
      op.binding.right = op.power + if op.groupsRight then 0 else 1 := by
  cases op with
  | shiftRight | shiftRightAssign => decide
  | mark k binding h =>
      unfold Binding.ofKind? at h
      split at h
      all_goals cases h <;> decide

theorem right_eq (op : Operator) :
    op.binding.right = op.power + if op.groupsRight then 0 else 1 := (groupsRight_iff op).2

/-- Operators that bind equally tight group in the same direction. -/
theorem groupsRight_congr (h : inner.power = op.power) : inner.groupsRight = op.groupsRight := by
  rw [(groupsRight_iff inner).1, (groupsRight_iff op).1, h]

/-- An operator may be the root of what stands on the left of another one. -/
def StandsLeft (inner op : Operator) : Prop :=
  op.power < inner.power ∨ inner.power = op.power ∧ inner.groupsRight = false

/-- An operator may be the root of what stands on the right of another one. -/
def StandsRight (inner op : Operator) : Prop :=
  op.power < inner.power ∨ inner.power = op.power ∧ inner.groupsRight = true

theorem standsLeft_iff : inner.StandsLeft op ↔ op.power < inner.binding.right := by
  have hright := right_eq inner
  unfold StandsLeft
  cases hgroups : inner.groupsRight <;> simp only [hgroups] at hright ⊢ <;> simp at hright ⊢ <;> omega

theorem standsRight_iff : inner.StandsRight op ↔ op.binding.right ≤ inner.power := by
  have hright := right_eq op
  unfold StandsRight
  by_cases hpower : inner.power = op.power
  · have hcongr := groupsRight_congr hpower
    cases hgroups : op.groupsRight <;> simp only [hcongr, hgroups] at hright ⊢ <;>
      simp at hright ⊢ <;> omega
  · have hle : op.power ≤ op.binding.right ∧ op.binding.right ≤ op.power + 1 := by
      rw [hright]
      split <;> omega
    constructor <;> intro h <;> omega

/-- Shifts stand between the additive and the relational operators. -/
example : Binding.relationalPower < shiftRight.power ∧
    shiftRight.power < (mark .plus _ rfl).power := by decide

end Operator

/-! ## Groupings -/

/-- Operands with operators between them, grouped by twos. -/
inductive Grouping where
  | operand (name : String)
  | join (left : Grouping) (op : Operator) (right : Grouping)

/-- The first operand, and each further one behind its operator. -/
abbrev Row := String × List (Operator × String)

namespace Grouping

/-- The operands and operators from left to right. -/
def row : Grouping → Row
  | operand name => (name, [])
  | join left op right => (left.row.1, left.row.2 ++ (op, right.row.1) :: right.row.2)

def root? : Grouping → Option Operator
  | operand _ => none
  | join _ op _ => some op

theorem not_mem_root?_operand (name : String) {P : Operator → Prop} :
    ∀ inner ∈ (operand name).root?, P inner :=
  fun inner hinner => absurd hinner (Option.not_mem_none inner)

/-- Each operator stands below those that bind tighter, or equally tight and in the
direction in which they group. -/
def Respects : Grouping → Prop
  | operand _ => True
  | join left op right => left.Respects ∧ right.Respects ∧
      (∀ inner ∈ left.root?, inner.StandsLeft op) ∧ ∀ inner ∈ right.root?, inner.StandsRight op

/-- The tree of a grouping, with one blank on each side of an operator. -/
def node : Grouping → Node
  | operand name => Build.identifierName name
  | join left op right => ⟨op.binding.node,
      left.node.tree :: Build.space :: (op.tokens ++ [Build.space, right.node.tree])⟩

/-- A grouping with one more operand in front of it. -/
def push (first : String) (op : Operator) : Grouping → Grouping
  | operand name => join (operand first) op (operand name)
  | join left root right =>
    if op.binding.right ≤ root.power then join (operand first) op (join left root right)
    else join (left.push first op) root right

/-- The grouping of a row that respects its operators. -/
def ofRow (first : String) : List (Operator × String) → Grouping
  | [] => operand first
  | (op, second) :: more => (ofRow second more).push first op

variable {first : String} {op : Operator} {e left right : Grouping}

theorem row_push : (e.push first op).row = (first, (op, e.row.1) :: e.row.2) := by
  induction e with
  | operand name => rfl
  | join left root right ihleft =>
      unfold push
      split
      · rfl
      · simp only [row, ihleft, List.cons_append]

theorem row_ofRow (first : String) (more : List (Operator × String)) :
    (ofRow first more).row = (first, more) := by
  induction more generalizing first with
  | nil => rfl
  | cons item more ih => rw [ofRow, row_push, ih]

/-- The root of a grouping with one more operand. -/
theorem root?_push : (e.push first op).root? = some op ∨ (e.push first op).root? = e.root? := by
  cases e with
  | operand name => exact .inl rfl
  | join left root right =>
      unfold push
      split
      · exact .inl rfl
      · exact .inr rfl

theorem respects_push (h : e.Respects) : (e.push first op).Respects := by
  induction e with
  | operand name => exact ⟨trivial, trivial, not_mem_root?_operand name, not_mem_root?_operand name⟩
  | join left root right ihleft =>
      obtain ⟨hleft, hright, hstandsLeft, hstandsRight⟩ := h
      unfold Grouping.push
      split
      · next hle =>
        refine ⟨trivial, ⟨hleft, hright, hstandsLeft, hstandsRight⟩, not_mem_root?_operand first,
          fun inner hinner => ?_⟩
        obtain rfl := Option.some.inj hinner
        exact Operator.standsRight_iff.mpr hle
      · next hlt =>
        refine ⟨ihleft hleft, hright, fun inner hinner => ?_, hstandsRight⟩
        rcases @root?_push first op left with hroot | hroot
        · rw [hroot] at hinner
          obtain rfl := Option.some.inj hinner
          exact Operator.standsLeft_iff.mpr (Nat.lt_of_not_le hlt)
        · exact hstandsLeft inner (hroot ▸ hinner)

theorem respects_ofRow (first : String) (more : List (Operator × String)) :
    (ofRow first more).Respects := by
  induction more generalizing first with
  | nil => trivial
  | cons item more ih => exact respects_push (ih item.2)

/-! ## Uniqueness -/

/-- An operand in front of a join goes to its left side if the root of the join may stand
over the operator and over what was there. -/
theorem push_join {root : Operator} (hop : op.StandsLeft root) :
    (join left root right).push first op = join (left.push first op) root right := by
  rw [push, if_neg (Nat.not_le_of_lt (Operator.standsLeft_iff.mp hop))]

/-- The operators on the left side of a root bind so tight that one more in front of
them does so as well. -/
theorem standsLeft_of_push {root : Operator} (h : (e.push first op).Respects)
    (hroot : ∀ inner ∈ (e.push first op).root?, inner.StandsLeft root) :
    op.StandsLeft root ∧ ∀ inner ∈ e.root?, inner.StandsLeft root := by
  cases e with
  | operand name => exact ⟨hroot op rfl, not_mem_root?_operand name⟩
  | join left inner right =>
      unfold push at h hroot
      split at h
      · next hle =>
        rw [if_pos hle] at hroot
        have hop := hroot op rfl
        refine ⟨hop, fun c hc => ?_⟩
        obtain rfl := Option.some.inj hc
        rw [Operator.standsLeft_iff] at hop ⊢
        have hright := Operator.right_eq inner
        omega
      · next hlt =>
        rw [if_neg hlt] at hroot
        have hinner := hroot inner rfl
        refine ⟨?_, fun c hc => Option.some.inj hc ▸ hinner⟩
        rw [Operator.standsLeft_iff] at hinner ⊢
        have hright := Operator.right_eq inner
        split at hright <;> omega

/-- A grouping of two or more operands that respects its operators comes from one with
an operand less. -/
theorem Respects.exists_push {second : String} {more : List (Operator × String)}
    (h : e.Respects) (hrow : e.row = (first, (op, second) :: more)) :
    ∃ e' : Grouping, e'.Respects ∧ e'.row = (second, more) ∧ e'.push first op = e := by
  induction e generalizing second more with
  | operand name => cases hrow
  | join left root right ihleft =>
      obtain ⟨hleft, hright, hstandsLeft, hstandsRight⟩ := h
      obtain ⟨hfirst, hmore⟩ := Prod.mk.inj hrow
      cases hitems : left.row.2 with
      | nil =>
          obtain ⟨name, rfl⟩ : ∃ name, left = operand name := by
            cases left with
            | operand name => exact ⟨name, rfl⟩
            | join => simp [row] at hitems
          obtain rfl : name = first := hfirst
          rw [hitems, List.nil_append] at hmore
          obtain ⟨hitem, rfl⟩ := List.cons.inj hmore
          obtain ⟨rfl, rfl⟩ := Prod.mk.inj hitem
          refine ⟨right, hright, rfl, ?_⟩
          cases right with
          | operand name => rfl
          | join inner root' outer =>
              rw [push, if_pos (Operator.standsRight_iff.mp (hstandsRight root' rfl))]
      | cons item items =>
          rw [hitems, List.cons_append] at hmore
          obtain ⟨rfl, rfl⟩ := List.cons.inj hmore
          obtain ⟨e', he', hrow', rfl⟩ := ihleft hleft (Prod.ext hfirst hitems)
          obtain ⟨hop, hroot⟩ := standsLeft_of_push hleft hstandsLeft
          refine ⟨join e' root right, ⟨he', hright, hroot, hstandsRight⟩, ?_, push_join hop⟩
          simp [row, hrow']

/-- The operators of a row allow one grouping. -/
theorem respects_iff {more : List (Operator × String)} :
    e.Respects ∧ e.row = (first, more) ↔ e = ofRow first more := by
  constructor
  · rintro ⟨h, hrow⟩
    induction more generalizing first e with
    | nil =>
        cases e with
        | operand name => rw [ofRow, (Prod.mk.inj hrow).1]
        | join => simp [row] at hrow
    | cons item more ih =>
        obtain ⟨e', he', hrow', rfl⟩ := h.exists_push hrow
        rw [ofRow, ← ih he' hrow']
  · rintro rfl
    exact ⟨respects_ofRow first more, row_ofRow first more⟩

example : ofRow "x" [(.mark .less _ rfl, "y"), (.shiftRight, "z"), (.mark .questionQuestion _ rfl, "w"),
      (.mark .questionQuestion _ rfl, "v")] =
    join (join (operand "x") (.mark .less _ rfl) (join (operand "y") .shiftRight (operand "z")))
      (.mark .questionQuestion _ rfl)
      (join (operand "w") (.mark .questionQuestion _ rfl) (operand "v")) := rfl

end Grouping

end CSharpKit.Syntax
