import CSharpKit.Proofs.Syntax.Places
import Mathlib.Algebra.GroupWithZero.Nat

/-!
# Walks from the bottom up

A walk through a tree that leaves an element after its parts, and comes to the collection of
a `foreach` before its other parts. Elsewhere it follows the text, so what ends before an
element starts is left before it.
-/

namespace CSharpKit.Syntax

namespace Tree

mutual

/-- The number of elements of a tree. -/
def count : Tree → Nat
  | .token _ _ => 1
  | .node _ ts => countAll ts + 1

def countAll : Forest → Nat
  | [] => 0
  | t :: ts => count t + countAll ts

end

theorem count_pos (t : Tree) : 0 < t.count := by
  cases t <;> simp [count]

theorem sum_map_count (ts : Forest) : (ts.map count).sum = countAll ts := by
  induction ts with
  | nil => rfl
  | cons t ts ih => rw [List.map_cons, List.sum_cons, ih, countAll]

theorem count_eq {t : Tree} (h : t.isNode = true) : t.count = (t.children.map count).sum + 1 := by
  cases t with
  | token k s => cases h
  | node k ts => rw [count, children, sum_map_count]

end Tree

namespace Cursor

open Tree

mutual

theorem length_preorderAt (c : Cursor) : ∀ t : Tree, (preorderAt c t).length = t.count
  | .token _ _ => rfl
  | .node k ts => by rw [preorderAt, List.length_cons, length_preorderRow, count]

theorem length_preorderRow (c : Cursor) (i pos : Nat) :
    ∀ ts : Forest, (preorderRow c i pos ts).length = countAll ts
  | [] => rfl
  | t :: ts => by
      rw [preorderRow, List.length_append, length_preorderAt, length_preorderRow, countAll]

end

/-! ## The order of a walk -/

/-- When a child is walked through: in the order of the text, but the collection of a `foreach`
first. -/
def turn (p : Cursor) (i : Nat) : Nat :=
  if p.kind == .forEachStatement && p.collection?.any (·.index == i) then 0 else i + 1

/-- The number of elements in the children that are walked through before one. -/
def countBefore (p : Cursor) (i : Nat) : Nat :=
  ((p.elements.filter fun e => p.turn e.index < p.turn i).map fun e => e.focus.count).sum

/-- The number of elements that the walk leaves before it comes to an element. -/
def walkStart : Cursor → Nat
  | .root _ => 0
  | .child p i _ _ => walkStart p + countBefore p i

/-- The number of elements that the walk has left with an element: those before it, those in
it, and the element. -/
def walkRank (c : Cursor) : Nat := c.walkStart + c.focus.count

/-- A larger part of a list has the greater sum. -/
theorem sum_filter_le {α : Type} {l : List α} (f : α → Nat) {p q : α → Bool}
    (hpq : ∀ y ∈ l, p y = true → q y = true) :
    ((l.filter p).map f).sum ≤ ((l.filter q).map f).sum := by
  induction l with
  | nil => exact Nat.le_refl _
  | cons y l ih =>
      obtain ⟨hhead, hrest⟩ := List.forall_mem_cons.mp hpq
      have hle := ih hrest
      simp only [List.filter_cons]
      split
      · next hp =>
        rw [if_pos (hhead hp), List.map_cons, List.map_cons, List.sum_cons, List.sum_cons]
        exact Nat.add_le_add_left hle _
      · split
        · exact Nat.le_trans hle (Nat.le_add_left _ _)
        · exact hle

/-- What is left out of a part of a list may be added to its sum. -/
theorem sum_filter_add_le {α : Type} {l : List α} (f : α → Nat) {p q : α → Bool} {x : α}
    (hx : x ∈ l) (hp : p x = false) (hq : q x = true) (hpq : ∀ y ∈ l, p y = true → q y = true) :
    ((l.filter p).map f).sum + f x ≤ ((l.filter q).map f).sum := by
  obtain ⟨before, behind, rfl⟩ := List.append_of_mem hx
  obtain ⟨hbefore, hbehind⟩ := List.forall_mem_append.mp hpq
  have hfirst := sum_filter_le f hbefore
  have hlast := sum_filter_le f (List.forall_mem_cons.mp hbehind).2
  simp only [List.filter_append, List.filter_cons, hp, hq, List.map_append, List.sum_append,
    List.map_cons, List.sum_cons, if_true, Bool.false_eq_true, if_false]
  omega

theorem walkStart_of_mem_elements {p e : Cursor} (he : e ∈ p.elements) :
    e.walkStart = p.walkStart + p.countBefore e.index := by
  obtain ⟨i, t, -, rfl⟩ := mem_elements_iff.mp he
  rfl

theorem walkRank_lt_of_mem_elements {p e : Cursor} (he : e ∈ p.elements) :
    e.walkRank < p.walkRank := by
  have hsum : p.countBefore e.index + e.focus.count ≤
      ((p.elements.filter fun _ => true).map fun e => e.focus.count).sum :=
    sum_filter_add_le (fun e => e.focus.count) he (by simp) rfl fun _ _ _ => rfl
  have hall : (p.elements.map fun e => e.focus.count) = p.focus.children.map count := by
    rw [← map_focus_elements, List.map_map]
    rfl
  rw [List.filter_true, hall] at hsum
  rw [walkRank, walkRank, walkStart_of_mem_elements he, count_eq (isNode_of_mem_elements he)]
  omega

theorem walkStart_le_of_mem_elements {p e : Cursor} (he : e ∈ p.elements) :
    p.walkStart ≤ e.walkStart := by
  rw [walkStart_of_mem_elements he]
  exact Nat.le_add_right _ _

theorem Below.walkRank_le {c d : Cursor} (h : Below c d) : d.walkRank ≤ c.walkRank := by
  induction h with
  | refl => exact Nat.le_refl _
  | tail _ he ih => exact Nat.le_trans (Nat.le_of_lt (walkRank_lt_of_mem_elements he)) ih

theorem Below.walkStart_le {c d : Cursor} (h : Below c d) : c.walkStart ≤ d.walkStart := by
  induction h with
  | refl => exact Nat.le_refl _
  | tail _ he ih => exact Nat.le_trans ih (walkStart_le_of_mem_elements he)

/-- The walk leaves a part of an element before the element. -/
theorem Below.walkRank_lt {p e d : Cursor} (he : e ∈ p.elements) (hd : Below e d) :
    d.walkRank < p.walkRank :=
  Nat.lt_of_le_of_lt hd.walkRank_le (walkRank_lt_of_mem_elements he)

/-- The walk leaves all of a child before it comes to a later one. -/
theorem walkRank_lt_of_turn_lt {p e e' c d : Cursor} (he : e ∈ p.elements) (he' : e' ∈ p.elements)
    (hturn : p.turn e.index < p.turn e'.index) (hd : Below e d) (hc : Below e' c) :
    d.walkRank < c.walkRank := by
  have hsum : p.countBefore e.index + e.focus.count ≤ p.countBefore e'.index := by
    apply sum_filter_add_le (fun e => e.focus.count) he
    · simp
    · simpa using hturn
    · intro y _ hy
      exact decide_eq_true (Nat.lt_trans (of_decide_eq_true hy) hturn)
  calc d.walkRank
      ≤ e.walkRank := hd.walkRank_le
    _ = p.walkStart + (p.countBefore e.index + e.focus.count) := by
        rw [walkRank, walkStart_of_mem_elements he, Nat.add_assoc]
    _ ≤ e'.walkStart := by
        rw [walkStart_of_mem_elements he']
        exact Nat.add_le_add_left hsum _
    _ ≤ c.walkStart := hc.walkStart_le
    _ < c.walkRank := Nat.lt_add_of_pos_right (count_pos _)

theorem top_of_below {c d : Cursor} (h : Below c d) : d.top = c.top := by
  induction h with
  | refl => rfl
  | tail _ he ih =>
      obtain ⟨i, t, -, rfl⟩ := mem_elements_iff.mp he
      exact ih

/-- The walk through a tree leaves all its elements. -/
theorem walkRank_le_length {t : Tree} {c : Cursor} (hc : Below (.root t) c) :
    c.walkRank ≤ (Cursor.root c.top).preorder.length := by
  have hroot : (Cursor.root t).walkRank = t.count := Nat.zero_add _
  rw [top_of_below hc, preorder, length_preorderAt]
  exact hroot ▸ hc.walkRank_le

/-! ## What stands before -/

/-- The way down from an element, past no `foreach`. -/
def Plain (c d : Cursor) : Prop :=
  Relation.ReflTransGen (fun p e : Cursor => e ∈ p.elements ∧ p.kind ≠ .forEachStatement) c d

theorem Plain.below {c d : Cursor} (h : Plain c d) : Below c d :=
  Relation.ReflTransGen.mono (fun _ _ => And.left) _ _ h

theorem turn_of_kind {p : Cursor} (h : p.kind ≠ .forEachStatement) (i : Nat) :
    p.turn i = i + 1 := by
  have hkind : (p.kind == .forEachStatement) = false := beq_eq_false_iff_ne.mpr h
  simp [turn, hkind]

/-- What ends before an element that takes some text is left before it. -/
theorem walkRank_lt_of_stop_le {a c d e : Cursor} (hd : Plain a d) (hc : Below a c)
    (hpos : 0 < c.focus.width) (hstop : d.stop ≤ c.start) (he : Below d e) :
    e.walkRank < c.walkRank := by
  induction hd using Relation.ReflTransGen.head_induction_on with
  | refl =>
      have hin := hc.stop_le
      rw [stop_eq c] at hin
      omega
  | @head a b hab hbd ih =>
      obtain ⟨hb, hkind⟩ := hab
      have hdown : Below b e := (Plain.below hbd).trans he
      rcases hc.cases_head with rfl | ⟨b', hb', hbc⟩
      · exact Below.walkRank_lt hb hdown
      rcases Nat.lt_trichotomy b.index b'.index with hlt | heq | hgt
      · have hturn : a.turn b.index < a.turn b'.index := by
          rw [turn_of_kind hkind, turn_of_kind hkind]
          exact Nat.succ_lt_succ hlt
        exact walkRank_lt_of_turn_lt hb hb' hturn hdown hbc
      · obtain rfl := eq_of_index_eq hb hb' heq
        exact ih hbc
      · -- The element would end before it starts.
        have hbehind := stop_le_start_of_index_lt hb' hb hgt
        have hstart := (Plain.below hbd).start_le
        have hin := hbc.stop_le
        rw [stop_eq c] at hin
        rw [stop_eq d] at hstop
        omega

end Cursor

end CSharpKit.Syntax
