import CSharpKit.Proofs.Syntax.Pointers
import CSharpKit.Proofs.Syntax.Tiling
import Mathlib.Algebra.GroupWithZero.Nat

/-!
# Tokens at their places

The tokens of a text are the leaves of its tree, and each stands in the tree where it stands
in the text. What lies inside a token is found at it.
-/

namespace CSharpKit.Syntax

open Tree Text

namespace Cursor

/-! ## Elements side by side -/

/-- The children of an element follow one another. -/
theorem pairwise_elements (c : Cursor) : c.elements.Pairwise fun e e' => e.stop ≤ e'.start := by
  have hindex : ∀ (i : Nat) (hi : i < c.elements.length), c.elements[i].index = i := by
    intro i hi
    have hget := getElem?_elements c i
    rw [List.getElem?_eq_getElem hi] at hget
    obtain ⟨t, -, ht⟩ := Option.map_eq_some_iff.mp hget.symm
    rw [← ht]
    rfl
  refine List.pairwise_iff_getElem.mpr fun i j hi hj hij => ?_
  refine stop_le_start_of_index_lt (List.getElem_mem _) (List.getElem_mem _) ?_
  rwa [hindex, hindex]

/-- Of two elements of a tree one is below the other, or they lie apart. -/
theorem Below.apart {r c d : Cursor} (hc : Below r c) (hd : Below r d) :
    Below c d ∨ Below d c ∨ c.stop ≤ d.start ∨ d.stop ≤ c.start := by
  induction hc using Relation.ReflTransGen.head_induction_on with
  | refl => exact .inl hd
  | @head p e he hec ih =>
      rcases hd.cases_head with rfl | ⟨e', he', hd'⟩
      · exact .inr (.inl ((below_of_mem_elements he).trans hec))
      · rcases Nat.lt_trichotomy e.index e'.index with hlt | heq | hlt
        · have hsep := stop_le_start_of_index_lt he he' hlt
          exact .inr (.inr (.inl ((Below.stop_le hec).trans (hsep.trans hd'.start_le))))
        · obtain rfl := eq_of_index_eq he he' heq
          exact ih hd'
        · have hsep := stop_le_start_of_index_lt he' he hlt
          exact .inr (.inr (.inr (hd'.stop_le.trans (hsep.trans (Below.start_le hec)))))

/-- What lies inside a token is found at the token. -/
theorem cover?_token {root e : Cursor} {span : Span} (h : Below root e) (htoken : e.isNode = false)
    (hspan : e.span.containsSpan span = true) (hpos : 0 < span.length) :
    root.cover? span = some e := by
  have hbelow := below_coverFrom_of_containsSpan h hspan hpos root.focus.depth (Nat.le_refl _)
  rw [cover?, if_pos (containsSpan_trans h.containsSpan hspan), hbelow.eq_of_token htoken]

end Cursor

/-! ## Places of leaves -/

/-- The bytes that leaves in a row take. -/
def leavesWidth (ls : List (Kind × String)) : Nat := (ls.map (·.2.utf8ByteSize)).sum

@[simp] theorem leavesWidth_append (ls ms : List (Kind × String)) :
    leavesWidth (ls ++ ms) = leavesWidth ls + leavesWidth ms := by
  simp [leavesWidth]

namespace Tree

mutual

theorem leavesWidth_leaves : ∀ t : Tree, leavesWidth t.leaves = t.width
  | .token k s => by simp [leavesWidth, leaves, width]
  | .node k cs => by rw [leaves, width, leavesWidth_forestLeaves cs]

theorem leavesWidth_forestLeaves : ∀ ts : Forest, leavesWidth (forestLeaves ts) = forestWidth ts
  | [] => rfl
  | t :: ts => by
      rw [forestLeaves, forestWidth, leavesWidth_append, leavesWidth_leaves t,
        leavesWidth_forestLeaves ts]

end

/-- A leaf of trees in a row is a leaf of one of them. -/
theorem exists_of_forestLeaves_eq {ts : Forest} {before behind : List (Kind × String)}
    {l : Kind × String} (h : forestLeaves ts = before ++ l :: behind) :
    ∃ i t before' behind', ts[i]? = some t ∧ t.leaves = before' ++ l :: behind' ∧
      before = forestLeaves (ts.take i) ++ before' := by
  induction ts generalizing before with
  | nil => simp [forestLeaves] at h
  | cons t ts ih =>
      rw [forestLeaves] at h
      rcases List.append_eq_append_iff.mp h with ⟨before', rfl, hrest⟩ | ⟨more, hleaves, hrest⟩
      · obtain ⟨i, u, front, back, hget, hu, rfl⟩ := ih hrest
        exact ⟨i + 1, u, front, back, hget, hu, by simp [forestLeaves]⟩
      · cases more with
        | nil =>
            replace hrest : forestLeaves ts = [] ++ l :: behind := hrest.symm
            obtain ⟨i, u, front, back, hget, hu, hfront⟩ := ih hrest
            refine ⟨i + 1, u, front, back, hget, hu, ?_⟩
            rw [List.append_nil] at hleaves
            rw [List.take_succ_cons, forestLeaves, List.append_assoc, ← hfront, List.append_nil,
              hleaves]
        | cons m more =>
            obtain ⟨rfl, -⟩ := List.cons.inj hrest
            exact ⟨0, t, before, more, rfl, hleaves, by simp [forestLeaves]⟩

end Tree

/-- A leaf of a tree stands behind the leaves before it. -/
theorem Cursor.exists_leaf {c : Cursor} {before behind : List (Kind × String)} {l : Kind × String}
    (h : c.focus.leaves = before ++ l :: behind) :
    ∃ e, Below c e ∧ e.focus = .token l.1 l.2 ∧ e.start = c.start + leavesWidth before := by
  obtain ⟨t, ht⟩ : ∃ t, c.focus = t := ⟨_, rfl⟩
  induction t using Tree.inductionOn generalizing c before behind with
  | token k s =>
      rw [ht, leaves] at h
      obtain ⟨rfl, hl⟩ : before = [] ∧ l = (k, s) := by
        cases before with
        | nil => exact ⟨rfl, (List.cons.inj h).1.symm⟩
        | cons m before => simp at h
      exact ⟨c, Below.refl c, by rw [ht, hl], rfl⟩
  | node k cs ih =>
      rw [ht, leaves] at h
      obtain ⟨i, u, before', behind', hget, hu, rfl⟩ := exists_of_forestLeaves_eq h
      let child := Cursor.child c i (c.start + forestWidth (c.focus.children.take i)) u
      have hchild : child ∈ c.elements := by
        refine Cursor.mem_elements_iff.mpr ⟨i, u, ?_, rfl⟩
        rw [ht]
        exact hget
      have hleaves : child.focus.leaves = before' ++ l :: behind' := hu
      obtain ⟨e, he, hfocus, hstart⟩ := ih u (List.mem_of_getElem? hget) hleaves rfl
      refine ⟨e, (Cursor.below_of_mem_elements hchild).trans he, hfocus, ?_⟩
      rw [hstart, leavesWidth_append, leavesWidth_forestLeaves, ← Nat.add_assoc]
      show c.start + forestWidth (c.focus.children.take i) + _ = _
      rw [ht]
      rfl

/-- A token of a text stands behind the tokens before it. -/
theorem Token.start_of_lexFrom (lineStart : Bool) (start : Nat) (cs : List Char) {t : Token} :
    ∀ before behind, lexFrom lineStart start cs = before ++ t :: behind →
      t.start = start + leavesWidth (before.map Token.leaf) := by
  fun_induction lexFrom lineStart start cs with
  | case1 =>
      intro before behind h
      cases before with
      | nil =>
          obtain ⟨rfl, -⟩ := List.cons.inj h
          rfl
      | cons u before => simp at h
  | case2 lineStart start c rest kind n hscan chars token ih =>
      intro before behind h
      cases before with
      | nil =>
          obtain ⟨rfl, -⟩ := List.cons.inj h
          rfl
      | cons u before =>
          obtain ⟨rfl, hmore⟩ := List.cons.inj h
          rw [ih before behind hmore, Token.span, Span.stop]
          simp only [leavesWidth, List.map_cons, List.sum_cons, Nat.add_assoc]
          rfl

/-- Each token of a text is a leaf of the tree of the text, at its place. -/
theorem IsFile.exists_leaf {text : String} {t : Tree} (h : IsFile text t) {token : Token}
    (htoken : token ∈ Token.lex text) (hkind : token.kind ≠ .eof) :
    ∃ e, Cursor.Below (.root t) e ∧ e.focus = .token token.kind token.text ∧
      e.span = token.span := by
  obtain ⟨last, hlex, hlast, -⟩ := Token.lex_eq_contents text
  obtain ⟨before, behind, hsplit⟩ : ∃ before behind, Token.contents text = before ++ token :: behind := by
    rw [hlex] at htoken
    rcases List.mem_append.mp htoken with hmem | hmem
    · exact List.append_of_mem hmem
    · obtain rfl := List.mem_singleton.mp hmem
      exact absurd hlast hkind
  have hleaves : (Cursor.root t).focus.leaves =
      before.map Token.leaf ++ token.leaf :: behind.map Token.leaf := by
    show t.leaves = _
    rw [h.leaves, hsplit, List.map_append, List.map_cons]
  obtain ⟨e, he, hfocus, hstart⟩ := Cursor.exists_leaf hleaves
  refine ⟨e, he, hfocus, ?_⟩
  rw [hsplit, List.append_assoc] at hlex
  rw [Cursor.span, hstart, hfocus, Token.span,
    Token.start_of_lexFrom true 0 text.toList before _ hlex]
  rfl

end CSharpKit.Syntax
