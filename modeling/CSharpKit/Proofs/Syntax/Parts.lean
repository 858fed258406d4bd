import CSharpKit.Proofs.Syntax.DeclarationForms
import CSharpKit.Proofs.Syntax.Places
import CSharpKit.Workspace.Document

/-!
# Parts of nodes

The parts of a node are its elements without the trivia. In a document without a complaint
they make a row of the form of the node's kind, and each part of the row is a part of the node.
-/

namespace CSharpKit.Syntax

open Tree Workspace

namespace Cursor

/-- The elements of a node that are not trivia. -/
def parts (c : Cursor) : List Cursor := c.elements.filter fun e => e.isNode || !e.kind.isTrivia

theorem map_focus_parts (c : Cursor) : c.parts.map focus = bare c.focus.children := by
  rw [parts, bare, ← map_focus_elements, List.filter_map]
  rfl

/-- Every node that stands in a node is a part of it. -/
theorem children_eq_filter_parts (c : Cursor) : c.children = c.parts.filter isNode := by
  rw [children, parts, List.filter_filter]
  refine List.filter_congr fun e _ => ?_
  cases he : e.isNode <;> simp

end Cursor

open Cursor

/-! ## Rows of cursors -/

namespace Layout

variable {F G : Layout} {p : Kind → Bool} {es : List Cursor}

theorem exists_of_andThen (h : F.andThen G (es.map focus)) :
    ∃ xs ys, es = xs ++ ys ∧ F (xs.map focus) ∧ G (ys.map focus) := by
  obtain ⟨front, more, heq, hfront, hmore⟩ := h
  obtain ⟨xs, ys, rfl, rfl, rfl⟩ := List.map_eq_append_iff.mp heq
  exact ⟨xs, ys, rfl, hfront, hmore⟩

theorem exists_of_token (h : token p (es.map focus)) :
    ∃ e, es = [e] ∧ e.isNode = false ∧ p e.kind = true := by
  obtain ⟨k, text, heq, hk⟩ := h
  obtain ⟨e, rest, rfl, he, hrest⟩ := List.map_eq_cons_iff.mp heq
  obtain rfl := List.map_eq_nil_iff.mp hrest
  exact ⟨e, rfl, by rw [Cursor.isNode, he]; rfl, by rw [Cursor.kind, he]; exact hk⟩

theorem exists_of_node (h : node p (es.map focus)) :
    ∃ e, es = [e] ∧ e.isNode = true ∧ p e.kind = true := by
  obtain ⟨k, cs, heq, hk⟩ := h
  obtain ⟨e, rest, rfl, he, hrest⟩ := List.map_eq_cons_iff.mp heq
  obtain rfl := List.map_eq_nil_iff.mp hrest
  exact ⟨e, rfl, by rw [Cursor.isNode, he]; rfl, by rw [Cursor.kind, he]; exact hk⟩

theorem eq_nil_or_of_opt (h : opt F (es.map focus)) : es = [] ∨ F (es.map focus) :=
  h.imp_left List.map_eq_nil_iff.mp

theorem forall_of_many (h : many p (es.map focus)) :
    ∀ e ∈ es, e.isNode = true ∧ p e.kind = true :=
  fun _ he => h _ (List.mem_map_of_mem he)

end Layout

/-- In a document without a complaint the parts of a node have the form of its kind. -/
theorem form_parts {doc : Document} (hclean : doc.errors = []) {c : Cursor}
    (hc : c ∈ doc.root.nodes) : form c.kind (c.parts.map focus) := by
  have hroot : Whole doc.parsed.tree := by
    rw [doc.parsed_eq]
    apply parse_whole
    rwa [← doc.parsed_eq]
  have hwhole : Whole c.focus := (below_of_mem_nodes hc).all hroot
  have hnode : c.focus.isNode = true := (List.mem_filter.mp hc).2
  rw [map_focus_parts, Cursor.kind]
  cases hfocus : c.focus with
  | token k text => simp [hfocus, Tree.isNode] at hnode
  | node k cs =>
      rw [hfocus] at hwhole
      exact (whole_node.mp hwhole).1

end CSharpKit.Syntax
