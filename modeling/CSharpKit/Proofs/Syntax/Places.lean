import CSharpKit.Proofs.Syntax.Paths
import CSharpKit.Proofs.Syntax.Shape
import CSharpKit.Syntax.View
import Mathlib.Data.List.Nodup
import Mathlib.Logic.Relation

/-!
# Places in a tree

How the elements of a tree lie in its text. The span of an element is inside
that of its parent, the children of an element follow one another, and so of
two elements one is below the other or they lie apart.
-/

namespace CSharpKit.Syntax

namespace Tree

theorem forestWidth_take_le (cs : Forest) (i : Nat) :
    forestWidth (cs.take i) ≤ forestWidth cs := by
  have hsplit : forestWidth cs = forestWidth (cs.take i) + forestWidth (cs.drop i) := by
    rw [← forestWidth_append, List.take_append_drop]
  omega

/-- A tree and those before it take their widths from the row. -/
theorem forestWidth_take_succ {cs : Forest} {i : Nat} {t : Tree} (h : cs[i]? = some t) :
    forestWidth (cs.take (i + 1)) = forestWidth (cs.take i) + t.width := by
  rw [List.take_add_one, h, forestWidth_append]
  simp [forestWidth]

theorem width_eq (t : Tree) (h : t.isNode = true) : t.width = forestWidth t.children := by
  cases t with
  | node k cs => rfl
  | token k s => simp [isNode] at h

/-- Two trees of a row take their widths from it. -/
theorem width_add_width_le {cs : Forest} {i j : Nat} {t u : Tree} (hij : i < j)
    (ht : cs[i]? = some t) (hu : cs[j]? = some u) : t.width + u.width ≤ forestWidth cs := by
  have hupto : forestWidth (cs.take (j + 1)) = forestWidth (cs.take j) + u.width :=
    forestWidth_take_succ hu
  have hbefore : forestWidth (cs.take (i + 1)) ≤ forestWidth (cs.take j) := by
    have := forestWidth_take_le (cs.take j) (i + 1)
    rwa [List.take_take, Nat.min_eq_left (by omega)] at this
  have hall := forestWidth_take_le cs (j + 1)
  rw [forestWidth_take_succ ht] at hbefore
  omega

theorem depth_lt_of_mem {t u : Tree} (h : u ∈ t.children) : u.depth < t.depth := by
  cases t with
  | token k s => simp [children] at h
  | node k cs =>
      have hmax : ∀ cs : Forest, u ∈ cs → u.depth + 1 ≤ forestDepth cs := by
        intro cs
        induction cs with
        | nil => simp
        | cons t ts ih =>
            intro hu
            rw [forestDepth]
            rcases List.mem_cons.mp hu with rfl | hu
            · omega
            · have := ih hu
              omega
      exact hmax cs h

end Tree

namespace Cursor

open Tree

/-! ## Children -/

theorem mem_elements_iff {p e : Cursor} :
    e ∈ p.elements ↔ ∃ i t, p.focus.children[i]? = some t ∧
      e = .child p i (p.start + forestWidth (p.focus.children.take i)) t := by
  rw [List.mem_iff_getElem?]
  simp only [getElem?_elements, Option.map_eq_some_iff]
  constructor
  · rintro ⟨i, t, ht, rfl⟩
    exact ⟨i, t, ht, rfl⟩
  · rintro ⟨i, t, ht, rfl⟩
    exact ⟨i, t, ht, rfl⟩

theorem parent?_of_mem_elements {p e : Cursor} (h : e ∈ p.elements) : e.parent? = some p := by
  obtain ⟨i, t, -, rfl⟩ := mem_elements_iff.mp h
  rfl

theorem map_focus_row (c : Cursor) (i pos : Nat) (ts : Forest) :
    (row c i pos ts).map Cursor.focus = ts := by
  induction ts generalizing i pos with
  | nil => rfl
  | cons t ts ih =>
      rw [row, List.map_cons, ih]
      rfl

theorem map_focus_elements (c : Cursor) : c.elements.map focus = c.focus.children :=
  map_focus_row ..

theorem map_focus_tokens (c : Cursor) :
    c.tokens.map focus = c.focus.children.filter fun t => !t.isNode := by
  rw [tokens, ← map_focus_elements, List.filter_map]
  rfl

theorem map_focus_childrenOf (c : Cursor) (p : Kind → Bool) : (c.childrenOf p).map focus =
    c.focus.children.filter fun t => t.isNode && p t.kind := by
  rw [childrenOf, Cursor.children, List.filter_filter, ← map_focus_elements, List.filter_map]
  simp only [Bool.and_comm]
  rfl

theorem map_focus_childOf? (c : Cursor) (p : Kind → Bool) : (c.childOf? p).map focus =
    c.focus.children.find? fun t => t.isNode && p t.kind := by
  have hhead : c.childOf? p = (c.childrenOf p).head? := by
    rw [childOf?, childrenOf, List.head?_filter]
  rw [hhead, ← List.head?_map, map_focus_childrenOf, List.head?_filter]

theorem name?_eq_text (c : Cursor) : c.name? =
    (c.focus.children.find? fun t => !t.isNode && t.kind == .identifier).map Tree.text := by
  have hfind : (c.tokens.find? fun t => t.kind == .identifier).map focus =
      c.focus.children.find? fun t => !t.isNode && t.kind == .identifier := by
    rw [tokens, List.find?_filter, ← map_focus_elements, List.find?_map]
    simp only [Bool.decide_and, Bool.decide_eq_true]
    rfl
  rw [← hfind, Option.map_map]
  rfl

theorem getElem?_of_mem_elements {p e : Cursor} (h : e ∈ p.elements) :
    p.focus.children[e.index]? = some e.focus := by
  obtain ⟨i, t, ht, rfl⟩ := mem_elements_iff.mp h
  exact ht

theorem focus_mem_of_mem_elements {p e : Cursor} (h : e ∈ p.elements) :
    e.focus ∈ p.focus.children := List.mem_of_getElem? (getElem?_of_mem_elements h)

theorem isNode_of_mem_elements {p e : Cursor} (h : e ∈ p.elements) : p.isNode = true :=
  isNode_of_children (focus_mem_of_mem_elements h)

theorem exists_mem_elements {p : Cursor} {t : Tree} (h : t ∈ p.focus.children) :
    ∃ e ∈ p.elements, e.focus = t := by
  obtain ⟨i, hi⟩ := List.mem_iff_getElem?.mp h
  exact ⟨_, mem_elements_iff.mpr ⟨i, t, hi, rfl⟩, rfl⟩

/-- The place among the children tells the child. -/
theorem eq_of_index_eq {p e e' : Cursor} (h : e ∈ p.elements) (h' : e' ∈ p.elements)
    (hindex : e.index = e'.index) : e = e' := by
  obtain ⟨i, t, ht, rfl⟩ := mem_elements_iff.mp h
  obtain ⟨j, t', ht', rfl⟩ := mem_elements_iff.mp h'
  obtain rfl : i = j := hindex
  obtain rfl : t = t' := Option.some.inj (ht.symm.trans ht')
  rfl

theorem stop_eq (c : Cursor) : c.stop = c.start + c.focus.width := rfl

theorem start_le_of_mem_elements {p e : Cursor} (h : e ∈ p.elements) : p.start ≤ e.start := by
  obtain ⟨i, t, -, rfl⟩ := mem_elements_iff.mp h
  exact Nat.le_add_right _ _

theorem stop_le_of_mem_elements {p e : Cursor} (h : e ∈ p.elements) : e.stop ≤ p.stop := by
  have hnode := isNode_of_mem_elements h
  obtain ⟨i, t, ht, rfl⟩ := mem_elements_iff.mp h
  have htake := forestWidth_take_le p.focus.children (i + 1)
  rw [forestWidth_take_succ ht] at htake
  rw [stop_eq, stop_eq p, width_eq p.focus hnode]
  show p.start + _ + t.width ≤ _
  omega

/-- The children of an element follow one another. -/
theorem stop_le_start_of_index_lt {p e e' : Cursor} (h : e ∈ p.elements) (h' : e' ∈ p.elements)
    (hindex : e.index < e'.index) : e.stop ≤ e'.start := by
  obtain ⟨i, t, ht, rfl⟩ := mem_elements_iff.mp h
  obtain ⟨j, t', -, rfl⟩ := mem_elements_iff.mp h'
  replace hindex : i < j := hindex
  have htake := forestWidth_take_le (p.focus.children.take j) (i + 1)
  rw [List.take_take, Nat.min_eq_left (by omega), forestWidth_take_succ ht] at htake
  show p.start + _ + t.width ≤ p.start + _
  omega

/-! ## Descent -/

/-- An element of the tree below another, or that one itself. -/
def Below (c d : Cursor) : Prop := Relation.ReflTransGen (fun p e : Cursor => e ∈ p.elements) c d

theorem Below.refl (c : Cursor) : Below c c := Relation.ReflTransGen.refl

theorem Below.trans {c d e : Cursor} (h : Below c d) (h' : Below d e) : Below c e :=
  Relation.ReflTransGen.trans h h'

theorem below_of_mem_elements {c d : Cursor} (h : d ∈ c.elements) : Below c d :=
  Relation.ReflTransGen.single h

theorem Below.element {c d e : Cursor} (h : Below c d) (he : e ∈ d.elements) : Below c e :=
  Relation.ReflTransGen.tail h he

/-- What is below an element is the element, or below one of its children. -/
theorem Below.cases_head {c d : Cursor} (h : Below c d) :
    c = d ∨ ∃ e ∈ c.elements, Below e d := by
  rcases Relation.ReflTransGen.cases_head h with rfl | ⟨e, he, hd⟩
  · exact .inl rfl
  · exact .inr ⟨e, he, hd⟩

/-- What is below an element is the element, or a child of one below it. -/
theorem Below.cases_tail {c d : Cursor} (h : Below c d) :
    d = c ∨ ∃ p, Below c p ∧ d ∈ p.elements := by
  rcases Relation.ReflTransGen.cases_tail h with rfl | ⟨p, hp, hd⟩
  · exact .inl rfl
  · exact .inr ⟨p, hp, hd⟩

theorem Below.start_le {c d : Cursor} (h : Below c d) : c.start ≤ d.start := by
  induction h with
  | refl => exact Nat.le_refl _
  | tail _ he ih => exact Nat.le_trans ih (start_le_of_mem_elements he)

theorem Below.stop_le {c d : Cursor} (h : Below c d) : d.stop ≤ c.stop := by
  induction h with
  | refl => exact Nat.le_refl _
  | tail _ he ih => exact Nat.le_trans (stop_le_of_mem_elements he) ih

theorem Below.width_le {c d : Cursor} (h : Below c d) : d.focus.width ≤ c.focus.width := by
  have hstart := h.start_le
  have hstop := h.stop_le
  rw [stop_eq, stop_eq] at hstop
  omega

/-- Below a token there is nothing. -/
theorem Below.eq_of_token {c d : Cursor} (h : Below c d) (hc : c.isNode = false) : d = c := by
  rcases h.cases_head with rfl | ⟨e, he, -⟩
  · rfl
  · exact absurd (isNode_of_mem_elements he) (by simp [hc])

/-- What holds of all nodes and tokens of a tree holds below a place of it. -/
theorem Below.all {N : Kind → Forest → Prop} {T : Kind → String → Prop} {c d : Cursor}
    (h : Below c d) (hall : All N T c.focus) : All N T d.focus := by
  induction h with
  | refl => exact hall
  | @tail p e _ he ih =>
      have hmem := focus_mem_of_mem_elements he
      cases hp : p.focus with
      | token k s => simp [hp, Tree.children] at hmem
      | node k cs =>
          rw [hp] at ih hmem
          exact (all_node.mp ih).2 _ hmem

/-! ## Ascent -/

theorem Below.of_parent? {r c p : Cursor} (h : Below r c) (hr : r.parent? = none)
    (hp : c.parent? = some p) : Below r p ∧ c ∈ p.elements := by
  rcases h.cases_tail with rfl | ⟨p', hp', hc⟩
  · rw [hr] at hp
    cases hp
  · obtain rfl : p' = p := Option.some.inj ((parent?_of_mem_elements hc).symm.trans hp)
    exact ⟨hp', hc⟩

theorem ancestors_of_mem_elements {e p : Cursor} (h : e ∈ p.elements) :
    e.ancestors = e :: p.ancestors := by
  obtain ⟨i, t, -, rfl⟩ := mem_elements_iff.mp h
  rfl

/-- What is above an element of a tree lies between the root and the element. -/
theorem Below.of_mem_ancestors {r c a : Cursor} (h : Below r c) (hr : r.parent? = none)
    (ha : a ∈ c.ancestors) : Below r a ∧ Below a c := by
  induction h with
  | refl =>
      cases r with
      | root t =>
          obtain rfl := List.mem_singleton.mp ha
          exact ⟨Below.refl _, Below.refl _⟩
      | child => cases hr
  | tail hp he ih =>
      rw [ancestors_of_mem_elements he] at ha
      rcases List.mem_cons.mp ha with rfl | ha
      · exact ⟨Below.element hp he, Below.refl _⟩
      · exact ⟨(ih ha).1, (ih ha).2.element he⟩

theorem isNode_of_below {c d : Cursor} (h : Below c d) (hd : d.isNode = true) : c.isNode = true := by
  rcases h.cases_head with rfl | ⟨e, he, -⟩
  · exact hd
  · exact isNode_of_mem_elements he

theorem Below.isNode_of_mem_tail {r c a : Cursor} (h : Below r c) (hr : r.parent? = none)
    (ha : a ∈ c.ancestors.tail) : a.isNode = true := by
  rcases h.cases_tail with rfl | ⟨p, hp, hc⟩
  · cases c with
    | root t => cases ha
    | child => cases hr
  · rw [ancestors_of_mem_elements hc, List.tail_cons] at ha
    exact isNode_of_below (Below.of_mem_ancestors hp hr ha).2 (isNode_of_mem_elements hc)

/-! ## Walks -/

theorem self_mem_preorder (c : Cursor) : c ∈ c.preorder := by
  cases h : c.focus <;> simp [preorder, h, preorderAt]

theorem mem_preorderRow_of_mem_row {c e d : Cursor} {ts : Forest} {i pos : Nat}
    (he : e ∈ row c i pos ts) (hd : d ∈ e.preorder) : d ∈ preorderRow c i pos ts := by
  induction ts generalizing i pos with
  | nil => simp [row] at he
  | cons t ts ih =>
      simp only [preorderRow, List.mem_append]
      simp only [row, List.mem_cons] at he
      rcases he with rfl | he
      · exact .inl hd
      · exact .inr (ih he)

theorem mem_preorder_of_mem_elements {c e d : Cursor} (he : e ∈ c.elements)
    (hd : d ∈ e.preorder) : d ∈ c.preorder := by
  cases h : c.focus with
  | token k s => simp [elements, h, Tree.children, row] at he
  | node k cs =>
      rw [preorder, h, preorderAt]
      refine List.mem_cons_of_mem _ (mem_preorderRow_of_mem_row ?_ hd)
      simpa [elements, h, Tree.children] using he

theorem Below.mem_preorder {c d : Cursor} (h : Below c d) : d ∈ c.preorder := by
  induction h using Relation.ReflTransGen.head_induction_on with
  | refl => exact self_mem_preorder d
  | head he _ ih => exact mem_preorder_of_mem_elements he ih

theorem Below.mem_nodes {c d : Cursor} (h : Below c d) (hd : d.isNode = true) : d ∈ c.nodes :=
  List.mem_filter.mpr ⟨h.mem_preorder, hd⟩

theorem below_of_at? {c d : Cursor} {path : List Nat} (h : c.at? path = some d) : Below c d := by
  induction path generalizing c with
  | nil =>
      obtain rfl : c = d := by simpa [at?] using h
      exact Below.refl c
  | cons i path ih =>
      obtain ⟨u, hu, -, hd⟩ := at?_cons_eq_some.mp h
      have he := mem_elements_iff.mpr ⟨i, u, hu, rfl⟩
      exact (below_of_mem_elements he).trans (ih hd)

theorem below_of_mem_nodes {c d : Cursor} (h : d ∈ c.nodes) : Below c d := by
  obtain ⟨path, -, hd⟩ := at?_path_of_mem_nodes h
  exact below_of_at? hd

mutual

theorem prefix_of_mem_preorderAt {c d : Cursor} :
    ∀ t : Tree, d ∈ preorderAt c t → c.path <+: d.path
  | .token k s, h => by
      obtain rfl : d = c := by simpa [preorderAt] using h
      exact List.prefix_refl _
  | .node k ts, h => by
      rcases List.mem_cons.mp (by simpa only [preorderAt] using h) with rfl | h
      · exact List.prefix_refl _
      · obtain ⟨j, -, hprefix⟩ := prefix_of_mem_preorderRow ts h
        exact (List.prefix_append _ _).trans hprefix

theorem prefix_of_mem_preorderRow {p d : Cursor} {i pos : Nat} :
    ∀ ts : Forest, d ∈ preorderRow p i pos ts → ∃ j, i ≤ j ∧ p.path ++ [j] <+: d.path
  | [], h => by simp [preorderRow] at h
  | t :: ts, h => by
      simp only [preorderRow, List.mem_append] at h
      rcases h with h | h
      · exact ⟨i, Nat.le_refl i, prefix_of_mem_preorderAt t h⟩
      · obtain ⟨j, hj, hprefix⟩ := prefix_of_mem_preorderRow ts h
        exact ⟨j, Nat.le_of_succ_le hj, hprefix⟩

end

mutual

theorem nodup_preorderAt (c : Cursor) : ∀ t : Tree, (preorderAt c t).Nodup
  | .token k s => List.nodup_singleton c
  | .node k ts => by
      rw [preorderAt]
      refine List.nodup_cons.mpr ⟨fun h => ?_, nodup_preorderRow c ts⟩
      obtain ⟨j, -, hprefix⟩ := prefix_of_mem_preorderRow ts h
      have hlength := hprefix.length_le
      rw [List.length_append, List.length_singleton] at hlength
      omega

theorem nodup_preorderRow (p : Cursor) {i pos : Nat} : ∀ ts : Forest, (preorderRow p i pos ts).Nodup
  | [] => List.nodup_nil
  | t :: ts => by
      rw [preorderRow]
      refine List.nodup_append.mpr ⟨nodup_preorderAt _ t, nodup_preorderRow p ts, ?_⟩
      rintro d hd _ hd' rfl
      have hfirst : p.path ++ [i] <+: d.path := prefix_of_mem_preorderAt t hd
      obtain ⟨j, hj, hrest⟩ := prefix_of_mem_preorderRow ts hd'
      -- Two prefixes of one length are equal, but the row goes on behind the child.
      have heq := (List.prefix_of_prefix_length_le hfirst hrest (by simp)).eq_of_length (by simp)
      have : i = j := by simpa using heq
      omega

end

/-- A walk comes to each node once. -/
theorem nodup_nodes (c : Cursor) : c.nodes.Nodup := (nodup_preorderAt c c.focus).filter _

/-! ## Parts of constructs -/

theorem mem_elements_of_mem_children {c d : Cursor} (h : d ∈ c.children) : d ∈ c.elements :=
  (List.mem_filter.mp h).1

theorem isNode_of_mem_children {c d : Cursor} (h : d ∈ c.children) : d.isNode = true :=
  (List.mem_filter.mp h).2

theorem mem_children_of_childOf? {c d : Cursor} {p : Kind → Bool} (h : c.childOf? p = some d) :
    d ∈ c.children ∧ p d.kind = true :=
  ⟨List.mem_of_find?_eq_some h, List.find?_some (p := fun e : Cursor => p e.kind) h⟩

theorem mem_children_of_mem_childrenOf {c d : Cursor} {p : Kind → Bool} (h : d ∈ c.childrenOf p) :
    d ∈ c.children ∧ p d.kind = true := List.mem_filter.mp h

theorem mem_children_of_child? {c d : Cursor} {k : Kind} (h : c.child? k = some d) :
    d ∈ c.children ∧ d.kind = k := by
  obtain ⟨hmem, hkind⟩ := mem_children_of_childOf? h
  exact ⟨hmem, beq_iff_eq.mp hkind⟩

theorem mem_children_of_mem_childrenOfKind {c d : Cursor} {k : Kind} (h : d ∈ c.childrenOfKind k) :
    d ∈ c.children ∧ d.kind = k := by
  obtain ⟨hmem, hkind⟩ := mem_children_of_mem_childrenOf h
  exact ⟨hmem, beq_iff_eq.mp hkind⟩

theorem name?_eq_find? (c : Cursor) :
    c.name? = (c.elements.find? fun e => !e.isNode && e.kind == .identifier).map Cursor.text := by
  simp only [name?, nameToken?, token?, tokens, List.find?_filter, Bool.decide_and,
    Bool.decide_eq_true]

theorem type?_eq_find? (c : Cursor) :
    c.type? = c.elements.find? fun e => e.isNode && e.kind.isType := by
  simp only [type?, childOf?, children, List.find?_filter, Bool.decide_and, Bool.decide_eq_true]

/-- A construct with a child of a kind has a first one. -/
theorem childOf?_isSome {c d : Cursor} {p : Kind → Bool} (h : d ∈ c.children)
    (hd : p d.kind = true) : ∃ e, c.childOf? p = some e := by
  have hsome : (c.childOf? p).isSome := by
    rw [childOf?, List.find?_isSome]
    exact ⟨d, h, hd⟩
  exact Option.isSome_iff_exists.mp hsome

theorem below_of_mem_children {c d : Cursor} (h : d ∈ c.children) : Below c d :=
  below_of_mem_elements (mem_elements_of_mem_children h)

theorem depth_lt_of_mem_children {c d : Cursor} (h : d ∈ c.children) :
    d.focus.depth < c.focus.depth := by
  apply depth_lt_of_mem
  rw [← map_focus_elements]
  exact List.mem_map_of_mem (mem_elements_of_mem_children h)

theorem below_of_childOf? {c d : Cursor} {p : Kind → Bool} (h : c.childOf? p = some d) :
    Below c d := below_of_mem_children (mem_children_of_childOf? h).1

theorem below_unwrapParens (fuel : Nat) (c : Cursor) : Below c (unwrapParens fuel c) := by
  induction fuel generalizing c with
  | zero => exact Below.refl c
  | succ fuel ih =>
      rw [unwrapParens]
      split
      · cases h : c.expression? with
        | none => exact Below.refl c
        | some inner => exact (below_of_childOf? h).trans (ih inner)
      · exact Below.refl c

theorem below_unparenthesized (c : Cursor) : Below c c.unparenthesized :=
  below_unwrapParens _ c

theorem unparenthesized_eq {c : Cursor} (h : c.kind ≠ .parenthesizedExpression) :
    c.unparenthesized = c := by
  rw [unparenthesized]
  cases c.focus.depth with
  | zero => rfl
  | succ fuel => simp [unwrapParens, h]

end Cursor

end CSharpKit.Syntax
