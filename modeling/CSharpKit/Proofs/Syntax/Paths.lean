import CSharpKit.Syntax.Cursor
import Mathlib.Data.List.Basic

/-!
# Nodes by their paths

A cursor walks down a tree and carries what it passed. Here the same walk is
made on the tree alone, and replacement as well, so that what a replacement
does to other paths can be said by induction on a path.
-/

namespace CSharpKit.Syntax

namespace Tree

@[simp] theorem kind_withChildren (t : Tree) (cs : Forest) : (t.withChildren cs).kind = t.kind := by
  cases t <;> rfl

@[simp] theorem isNode_withChildren (t : Tree) (cs : Forest) :
    (t.withChildren cs).isNode = t.isNode := by
  cases t <;> rfl

theorem isNode_of_children {t u : Tree} (h : u ∈ t.children) : t.isNode = true := by
  cases t with
  | node k cs => rfl
  | token k s => simp [children] at h

theorem children_withChildren {t : Tree} (h : t.isNode = true) (cs : Forest) :
    (t.withChildren cs).children = cs := by
  cases t with
  | node k _ => rfl
  | token k s => simp [isNode] at h

/-- The node at a path; `none` if the path leaves the tree or ends at a token. -/
def nodeAt? (t : Tree) : List Nat → Option Tree
  | [] => some t
  | i :: path =>
    match t.children[i]? with
    | some u => if u.isNode then u.nodeAt? path else none
    | none => none

/-- The tree with the element at a path replaced. -/
def replaceAt (t : Tree) : List Nat → Tree → Tree
  | [], new => new
  | i :: path, new => t.withChildren (t.children.modify i fun u => u.replaceAt path new)

@[simp] theorem nodeAt?_nil (t : Tree) : t.nodeAt? [] = some t := rfl

@[simp] theorem replaceAt_nil (t new : Tree) : t.replaceAt [] new = new := rfl

theorem nodeAt?_cons_eq_some {t v : Tree} {i : Nat} {path : List Nat} :
    t.nodeAt? (i :: path) = some v ↔
      ∃ u, t.children[i]? = some u ∧ u.isNode = true ∧ u.nodeAt? path = some v := by
  rw [nodeAt?]
  cases h : t.children[i]? with
  | none => simp
  | some u => by_cases hu : u.isNode = true <;> simp [hu]

/-- A node that is replaced stands where the old one stood. -/
theorem nodeAt?_replaceAt_self {t v new : Tree} {path : List Nat} (hnew : new.isNode = true)
    (h : t.nodeAt? path = some v) : (t.replaceAt path new).nodeAt? path = some new := by
  induction path generalizing t with
  | nil => rfl
  | cons i path ih =>
      obtain ⟨u, hu, hnode, hv⟩ := nodeAt?_cons_eq_some.mp h
      have ht : t.isNode = true := isNode_of_children (List.mem_of_getElem? hu)
      refine nodeAt?_cons_eq_some.mpr ⟨u.replaceAt path new, ?_, ?_, ih hv⟩
      · simp [replaceAt, children_withChildren ht, hu]
      · cases path with
        | nil => exact hnew
        | cons j path => simpa [replaceAt] using hnode

/-- Away from the replaced node and what is below it, no node comes, goes, or
changes its kind. -/
theorem kind_nodeAt?_replaceAt {t new : Tree} {path other : List Nat}
    (hlen : other.length ≤ path.length) (hne : other ≠ path) :
    ((t.replaceAt path new).nodeAt? other).map kind = (t.nodeAt? other).map kind := by
  induction path generalizing t other with
  | nil => exact absurd (List.length_eq_zero_iff.mp (Nat.le_zero.mp hlen)) hne
  | cons i path ih =>
      cases other with
      | nil => simp [replaceAt]
      | cons j other =>
          cases t with
          | token k s => simp [replaceAt, withChildren]
          | node k cs =>
              simp only [replaceAt, withChildren, children, nodeAt?, List.getElem?_modify]
              by_cases hij : i = j
              · subst hij
                have hne' : other ≠ path := fun h => hne (by rw [h])
                have hlen' : other.length ≤ path.length := by simpa using hlen
                cases hu : cs[i]? with
                | none => rfl
                | some u =>
                    have hnode : (u.replaceAt path new).isNode = u.isNode := by
                      cases path with
                      | nil => exact absurd (List.length_eq_zero_iff.mp (Nat.le_zero.mp hlen')) hne'
                      | cons l path => simp [replaceAt]
                    by_cases hn : u.isNode = true
                    · simp [hnode, hn, ih hlen' hne']
                    · simp [hnode, hn]
              · cases hu : cs[j]? with
                | none => simp [hij]
                | some u => simp [hij]

end Tree

namespace Cursor

open Tree

@[simp] theorem focus_child (p : Cursor) (i s : Nat) (t : Tree) :
    (Cursor.child p i s t).focus = t := rfl

@[simp] theorem path_child (p : Cursor) (i s : Nat) (t : Tree) :
    (Cursor.child p i s t).path = p.path ++ [i] := rfl

theorem getElem?_row (parent : Cursor) (i pos : Nat) (ts : Forest) (j : Nat) :
    (row parent i pos ts)[j]? =
      (ts[j]?).map fun t => .child parent (i + j) (pos + forestWidth (ts.take j)) t := by
  induction ts generalizing i pos j with
  | nil => simp [row]
  | cons t ts ih =>
      cases j with
      | zero => simp [row, forestWidth]
      | succ j =>
          simp only [row, List.getElem?_cons_succ, ih, List.take_succ_cons, forestWidth]
          simp only [Nat.add_assoc, Nat.add_comm 1 j]

theorem getElem?_elements (c : Cursor) (i : Nat) :
    c.elements[i]? = (c.focus.children[i]?).map fun t =>
      .child c i (c.start + forestWidth (c.focus.children.take i)) t := by
  simp [elements, getElem?_row]

/-- One step of a walk down. -/
theorem at?_cons_eq_some {c d : Cursor} {i : Nat} {path : List Nat} :
    c.at? (i :: path) = some d ↔
      ∃ u, c.focus.children[i]? = some u ∧ u.isNode = true ∧
        (Cursor.child c i (c.start + forestWidth (c.focus.children.take i)) u).at? path =
          some d := by
  rw [at?, getElem?_elements]
  cases h : c.focus.children[i]? with
  | none => simp
  | some u => by_cases hu : u.isNode = true <;> simp [hu, isNode]

theorem focus_at? (c : Cursor) (path : List Nat) :
    (c.at? path).map focus = c.focus.nodeAt? path := by
  induction path generalizing c with
  | nil => rfl
  | cons i path ih =>
      simp only [at?, nodeAt?, getElem?_elements]
      cases h : c.focus.children[i]? with
      | none => rfl
      | some u => by_cases hu : u.isNode = true <;> simp [hu, isNode, ih]

theorem path_of_at? {c d : Cursor} {path : List Nat} (h : c.at? path = some d) :
    d.path = c.path ++ path := by
  induction path generalizing c with
  | nil =>
      obtain rfl : c = d := by simpa [at?] using h
      simp
  | cons i path ih =>
      obtain ⟨u, _, _, hd⟩ := at?_cons_eq_some.mp h
      simpa using ih hd

/-- Replacement at a cursor is replacement at its path. -/
theorem replaceWith_of_at? {c d : Cursor} {path : List Nat} (h : c.at? path = some d)
    (new : Tree) : d.replaceWith new = c.replaceWith (c.focus.replaceAt path new) := by
  induction path generalizing c with
  | nil =>
      obtain rfl : c = d := by simpa [at?] using h
      rfl
  | cons i path ih =>
      obtain ⟨u, hu, _, hd⟩ := at?_cons_eq_some.mp h
      rw [ih hd, replaceWith, replaceAt, List.modify_eq_set_getElem?, hu]
      rfl

mutual

theorem exists_at?_of_mem_preorderAt {c d : Cursor} (hd : d.isNode = true) :
    ∀ t : Tree, c.focus = t → d ∈ preorderAt c t → ∃ path, c.at? path = some d
  | .token k s, _, h => by
      obtain rfl : d = c := by simpa [preorderAt] using h
      exact ⟨[], rfl⟩
  | .node k ts, hc, h => by
      rcases List.mem_cons.mp (by simpa only [preorderAt] using h) with rfl | h
      · exact ⟨[], rfl⟩
      · exact exists_at?_of_mem_preorderRow hd [] ts (by rw [hc]; rfl)
          (by simpa [forestWidth] using h)

theorem exists_at?_of_mem_preorderRow {c d : Cursor} (hd : d.isNode = true) (done : Forest) :
    ∀ ts : Forest, c.focus.children = done ++ ts →
      d ∈ preorderRow c done.length (c.start + forestWidth done) ts → ∃ path, c.at? path = some d
  | [], _, h => by simp [preorderRow] at h
  | t :: ts, hc, h => by
      simp only [preorderRow, List.mem_append] at h
      rcases h with h | h
      · obtain ⟨path, hpath⟩ := exists_at?_of_mem_preorderAt hd t rfl h
        cases t with
        | node k cs =>
            refine ⟨done.length :: path, at?_cons_eq_some.mpr ⟨.node k cs, ?_, rfl, ?_⟩⟩
            · simp [hc]
            · simpa [hc] using hpath
        | token k s =>
            obtain rfl : d = _ := by simpa [preorderAt] using h
            simp [isNode, Tree.isNode] at hd
      · refine exists_at?_of_mem_preorderRow hd (done ++ [t]) ts (by simp [hc]) ?_
        simpa [forestWidth, Nat.add_assoc] using h

end

/-- A node of a tree is found again by its path. -/
theorem at?_path_of_mem_nodes {c d : Cursor} (h : d ∈ c.nodes) :
    ∃ path, d.path = c.path ++ path ∧ c.at? path = some d := by
  obtain ⟨hmem, hnode⟩ := List.mem_filter.mp h
  obtain ⟨path, hpath⟩ := exists_at?_of_mem_preorderAt hnode c.focus rfl hmem
  exact ⟨path, path_of_at? hpath, hpath⟩

theorem at?_root_of_mem_nodes {t : Tree} {d : Cursor} (h : d ∈ (Cursor.root t).nodes) :
    (Cursor.root t).at? d.path = some d := by
  obtain ⟨path, hpath, hd⟩ := at?_path_of_mem_nodes h
  rw [hpath]
  exact hd

end Cursor

end CSharpKit.Syntax
