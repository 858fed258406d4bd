import CSharpKit.Proofs.Refactor.BottomUp
import CSharpKit.Proofs.Syntax.Places
import CSharpKit.Proofs.Text.Patches

/-!
# The text of a rewritten tree

A rewrite of a tree is a change of its text. Where a node is replaced, its stretch
of the text is; where trees are inserted, nothing else changes. `Spliced` says
this of elements in a row, with the places of the tree that are patched from left
to right, so that what holds of the children gives what holds of their parent.
-/

namespace CSharpKit

open Syntax Text Cursor Outcome

/-! ## Texts of trees -/

namespace Syntax.Tree

/-- The source text of trees in a row. -/
def forestText (ts : Forest) : String := String.join ((forestLeaves ts).map (·.2))

theorem text_node (k : Kind) (cs : Forest) : (Tree.node k cs).text = forestText cs := rfl

theorem toList_forestText (ts : Forest) :
    (forestText ts).toList = (forestLeaves ts).flatMap fun leaf => leaf.2.toList := by
  rw [forestText, String.toList_join, List.flatMap_map]

@[simp] theorem toList_forestText_nil : (forestText []).toList = [] := by
  simp [toList_forestText, forestLeaves]

@[simp] theorem toList_forestText_cons (t : Tree) (ts : Forest) :
    (forestText (t :: ts)).toList = t.text.toList ++ (forestText ts).toList := by
  rw [toList_forestText, toList_forestText, Tree.text, String.toList_join, List.flatMap_map,
    forestLeaves, List.flatMap_append]

@[simp] theorem toList_forestText_append (xs ys : Forest) :
    (forestText (xs ++ ys)).toList = (forestText xs).toList ++ (forestText ys).toList := by
  rw [toList_forestText, forestLeaves_append, List.flatMap_append, ← toList_forestText,
    ← toList_forestText]

mutual

theorem byteLength_text : ∀ t : Tree, byteLength t.text.toList = t.width
  | .token k s => by simp [Tree.text, leaves, width, byteLength_toList]
  | .node k cs => by rw [text_node, width, byteLength_forestText cs]

theorem byteLength_forestText : ∀ ts : Forest, byteLength (forestText ts).toList = forestWidth ts
  | [] => by simp [forestWidth]
  | t :: ts => by
      rw [toList_forestText_cons, byteLength_append, byteLength_text t, byteLength_forestText ts,
        forestWidth]

end

end Syntax.Tree

/-! ## Rows of a tree -/

namespace Syntax.Cursor

theorem row_append (p : Cursor) (i pos : Nat) (xs ys : Forest) :
    row p i pos (xs ++ ys) =
      row p i pos xs ++ row p (i + xs.length) (pos + Tree.forestWidth xs) ys := by
  induction xs generalizing i pos with
  | nil => simp [row, Tree.forestWidth]
  | cons t ts ih =>
      simp only [List.cons_append, row, ih, List.length_cons, Tree.forestWidth]
      simp only [Nat.add_assoc, Nat.add_comm 1 ts.length]

/-- An element of a row lies behind the first place of the row. -/
theorem index_of_mem_row {p e : Cursor} {i pos : Nat} {ts : Forest} (h : e ∈ row p i pos ts) :
    i ≤ e.index ∧ e.index < i + ts.length ∧ e.path = p.path ++ [e.index] := by
  induction ts generalizing i pos with
  | nil => simp [row] at h
  | cons t ts ih =>
      rcases List.mem_cons.mp h with rfl | h
      · exact ⟨Nat.le_refl i, by simp [index], rfl⟩
      · obtain ⟨hle, hlt, hpath⟩ := ih h
        refine ⟨by omega, ?_, hpath⟩
        rw [List.length_cons]
        omega

theorem Below.exists_path {c d : Cursor} (h : Below c d) : ∃ path, d.path = c.path ++ path := by
  induction h with
  | refl => exact ⟨[], by simp⟩
  | @tail p e _ he ih =>
      obtain ⟨path, hpath⟩ := ih
      refine ⟨path ++ [e.index], ?_⟩
      rw [(index_of_mem_row he).2.2, hpath, List.append_assoc]

/-- The elements of a tree are told apart by their paths. -/
theorem Below.eq_of_path_eq {r c d : Cursor} (hc : Below r c) (hd : Below r d)
    (h : c.path = d.path) : c = d := by
  induction hc generalizing d with
  | refl =>
      rcases hd.cases_tail with rfl | ⟨p, hp, hd⟩
      · rfl
      · obtain ⟨path, hpath⟩ := hp.exists_path
        have hlength := congrArg List.length h
        rw [(index_of_mem_row hd).2.2, hpath] at hlength
        simp only [List.length_append, List.length_singleton] at hlength
        omega
  | @tail p c hp hc ih =>
      obtain ⟨path, hpath⟩ := Below.exists_path hp
      rw [(index_of_mem_row hc).2.2] at h
      rcases hd.cases_tail with rfl | ⟨p', hp', hd⟩
      · have hlength := congrArg List.length h
        rw [hpath] at hlength
        simp only [List.length_append, List.length_singleton] at hlength
        omega
      · rw [(index_of_mem_row hd).2.2] at h
        obtain ⟨hparent, hindex⟩ := List.append_inj' h rfl
        obtain rfl := ih hp' hparent
        exact eq_of_index_eq hc hd (List.singleton_inj.mp hindex)

/-- Nothing is below two elements at different places of a row. -/
theorem not_below_of_index_ne {p e e' d : Cursor} (he : e.path = p.path ++ [e.index])
    (he' : e'.path = p.path ++ [e'.index]) (hne : e.index ≠ e'.index) (h : Below e d) :
    ¬Below e' d := by
  intro h'
  obtain ⟨path, hpath⟩ := h.exists_path
  obtain ⟨path', hpath'⟩ := h'.exists_path
  rw [hpath, he, he', List.append_assoc, List.append_assoc] at hpath'
  exact hne (List.cons.inj (List.append_cancel_left hpath')).1

/-- An element is not below its children. -/
theorem not_below_parent {c e : Cursor} (he : e ∈ c.elements) : ¬Below e c := by
  intro h
  obtain ⟨path, hpath⟩ := h.exists_path
  have hlength := congrArg List.length hpath
  rw [(index_of_mem_row he).2.2] at hlength
  simp only [List.length_append, List.length_singleton] at hlength
  omega

end Syntax.Cursor

theorem Refactor.NodeChange.insert_node {index : Nat} {new us : Forest} {k : Kind}
    (h : index ≤ us.length) : NodeChange.insert index new (.node k us) =
      .ok ⟨k, us.take index ++ new ++ us.drop index⟩ := by
  simp [NodeChange.insert, Tree.insertAt?, Tree.children, Tree.kind, h]

namespace Refactor.Edit

variable {edits : List Edit} {patch? : Cursor → Option Patch}

/-! ## Patches of elements in a row -/

/-- The places that have a patch and are at or below one of the elements `es`,
from left to right, and what their patches make of the text of the elements. -/
structure Spliced (patch? : Cursor → Option Patch) (es : List Cursor) (pos : Nat)
    (old new : List Char) (places : List Cursor) : Prop where
  nodup : places.Nodup
  mem : ∀ d, d ∈ places ↔ (∃ e ∈ es, Below e d) ∧ d.isNode = true ∧ (patch? d).isSome = true
  splice : Patch.splice? pos (places.filterMap patch?) old = some new

namespace Spliced

variable {es more : List Cursor} {pos : Nat} {xs ys us vs : List Char} {places others : List Cursor}

theorem nil (pos : Nat) : Spliced patch? [] pos [] [] [] := by
  refine ⟨List.nodup_nil, by simp, rfl⟩

/-- Elements behind others. -/
theorem append {mid : Nat} (h : Spliced patch? es pos xs us places)
    (h' : Spliced patch? more mid ys vs others) (hmid : mid = pos + byteLength xs)
    (hapart : ∀ e ∈ es, ∀ e' ∈ more, ∀ d, Below e d → ¬Below e' d) :
    Spliced patch? (es ++ more) pos (xs ++ ys) (us ++ vs) (places ++ others) := by
  constructor
  · refine List.nodup_append.mpr ⟨h.nodup, h'.nodup, ?_⟩
    rintro d hd d' hd' rfl
    obtain ⟨⟨e, he, hbelow⟩, -⟩ := (h.mem d).mp hd
    obtain ⟨⟨e', he', hbelow'⟩, -⟩ := (h'.mem d).mp hd'
    exact hapart e he e' he' d hbelow hbelow'
  · intro d
    rw [List.mem_append, h.mem, h'.mem]
    constructor
    · rintro (⟨⟨e, he, hbelow⟩, hrest⟩ | ⟨⟨e, he, hbelow⟩, hrest⟩)
      · exact ⟨⟨e, List.mem_append_left _ he, hbelow⟩, hrest⟩
      · exact ⟨⟨e, List.mem_append_right _ he, hbelow⟩, hrest⟩
    · rintro ⟨⟨e, he, hbelow⟩, hrest⟩
      rcases List.mem_append.mp he with he | he
      · exact .inl ⟨⟨e, he, hbelow⟩, hrest⟩
      · exact .inr ⟨⟨e, he, hbelow⟩, hrest⟩
  · rw [List.filterMap_append]
    exact Patch.splice?_append h.splice (hmid ▸ h'.splice)

/-- A row is patched element by element. -/
theorem row {p : Cursor} {i pos : Nat} {ts us : Forest}
    (h : ∀ e ∈ Cursor.row p i pos ts, ∀ u, rewriteAt edits e.path e.focus = .ok u →
      ∃ places, Spliced patch? [e] e.start e.text.toList u.text.toList places)
    (hus : rewriteRow edits p.path i ts = .ok us) :
    ∃ places, Spliced patch? (Cursor.row p i pos ts) pos (Tree.forestText ts).toList
      (Tree.forestText us).toList places := by
  induction ts generalizing i pos us with
  | nil =>
      obtain rfl : [] = us := Except.ok.inj hus
      refine ⟨[], ?_⟩
      rw [Tree.toList_forestText_nil]
      exact Spliced.nil pos
  | cons t ts ih =>
      simp only [rewriteRow, bind_eq_ok_iff, pure_eq_ok_iff] at hus
      obtain ⟨u, hu, us, hus, rfl⟩ := hus
      obtain ⟨places, hfirst⟩ := h _ List.mem_cons_self u hu
      obtain ⟨others, hothers⟩ := ih (fun e he => h e (List.mem_cons_of_mem _ he)) hus
      refine ⟨places ++ others, ?_⟩
      rw [Tree.toList_forestText_cons, Tree.toList_forestText_cons]
      refine hfirst.append hothers ?_ fun e he e' he' d hbelow => ?_
      · exact congrArg (pos + ·) (Tree.byteLength_text t).symm
      · obtain rfl := List.mem_singleton.mp he
        obtain ⟨hle, -, hpath⟩ := index_of_mem_row he'
        refine not_below_of_index_ne rfl hpath ?_ hbelow
        show i ≠ e'.index
        omega

end Spliced

/-! ## Patches of a tree -/

/-- What the edits recorded for a node do to the text, and the patch for it. -/
inductive Plan (edits : List Edit) (patch? : Cursor → Option Patch) (c : Cursor) : Prop
  | keep (hedits : recordedAt edits c.path = []) (hpatch : patch? c = none)
  /-- A node is replaced as a whole, and nothing in it has a patch of its own. -/
  | replace {edit : Edit} {new : Node} (hedits : recordedAt edits c.path = [edit])
      (hchange : edit.change = NodeChange.replaceWith new)
      (hpatch : patch? c = some ⟨c.span, new.tree.text⟩)
      (hbelow : ∀ d, Below c d → d ≠ c → patch? d = none)
  | insert {edit : Edit} {e : Cursor} {new : Forest} (hedits : recordedAt edits c.path = [edit])
      (he : e ∈ c.elements) (hchange : edit.change = NodeChange.insert e.index new)
      (hpatch : patch? c = some ⟨⟨e.start, 0⟩, Tree.forestText new⟩)

theorem changeNode_singleton {edit : Edit} {t u : Tree} :
    changeNode [edit] t = .ok u ↔ ∃ new, edit.change t = .ok new ∧ u = new.tree := by
  simp [changeNode, @eq_comm _ u]

theorem rewriteRow_append_eq_ok {path : List Nat} {i : Nat} {xs ys us : Forest}
    (h : rewriteRow edits path i (xs ++ ys) = .ok us) :
    ∃ us₁ us₂, rewriteRow edits path i xs = .ok us₁ ∧
      rewriteRow edits path (i + xs.length) ys = .ok us₂ ∧ us₁.length = xs.length ∧
      us = us₁ ++ us₂ := by
  induction xs generalizing i us with
  | nil => exact ⟨[], us, rfl, h, rfl, rfl⟩
  | cons t ts ih =>
      simp only [List.cons_append, rewriteRow, bind_eq_ok_iff, pure_eq_ok_iff] at h ⊢
      obtain ⟨u, hu, rest, hrest, rfl⟩ := h
      obtain ⟨us₁, us₂, h₁, h₂, hlength, rfl⟩ := ih hrest
      refine ⟨u :: us₁, us₂, ⟨u, hu, us₁, h₁, rfl⟩, ?_, by simp [hlength], rfl⟩
      rwa [List.length_cons, Nat.add_comm ts.length 1, ← Nat.add_assoc]

/-- What is at or below an element with a patch, by its children. -/
theorem below_iff {c d : Cursor} : Below c d ↔ d = c ∨ ∃ e ∈ c.elements, Below e d := by
  constructor
  · intro h
    rcases h.cases_head with rfl | h
    · exact .inl rfl
    · exact .inr h
  · rintro (rfl | ⟨e, he, h⟩)
    · exact Below.refl d
    · exact (below_of_mem_elements he).trans h

namespace Spliced

variable {c : Cursor} {k : Kind} {cs us : Forest} {places : List Cursor}

/-- A node that has no patch of its own. -/
theorem keep (hc : c.focus = .node k cs) (hpatch : patch? c = none)
    (h : Spliced patch? (Cursor.row c 0 c.start cs) c.start (Tree.forestText cs).toList
      (Tree.forestText us).toList places) :
    Spliced patch? [c] c.start c.text.toList (Syntax.Tree.node k us).text.toList places := by
  have helements : Cursor.row c 0 c.start cs = c.elements := by rw [elements, hc]; rfl
  refine ⟨h.nodup, fun d => ?_, ?_⟩
  · rw [h.mem, helements]
    constructor
    · rintro ⟨hbelow, hrest⟩
      exact ⟨⟨c, List.mem_singleton_self c, below_iff.mpr (.inr hbelow)⟩, hrest⟩
    · rintro ⟨⟨_, hmem, hbelow⟩, hnode, hsome⟩
      obtain rfl := List.mem_singleton.mp hmem
      rcases below_iff.mp hbelow with rfl | hbelow
      · rw [hpatch] at hsome
        cases hsome
      · exact ⟨hbelow, hnode, hsome⟩
  · rw [Cursor.text, hc, Tree.text_node, Tree.text_node]
    exact h.splice

/-- A node that is replaced as a whole. -/
theorem replace {new : Tree} (hnode : c.isNode = true)
    (hpatch : patch? c = some ⟨c.span, new.text⟩)
    (hbelow : ∀ d, Below c d → d ≠ c → patch? d = none) :
    Spliced patch? [c] c.start c.text.toList new.text.toList [c] := by
  refine ⟨by simp, fun d => ?_, ?_⟩
  · rw [List.mem_singleton]
    constructor
    · rintro rfl
      exact ⟨⟨d, List.mem_singleton_self d, Below.refl d⟩, hnode, by simp [hpatch]⟩
    · rintro ⟨⟨_, hmem, hd⟩, -, hsome⟩
      obtain rfl := List.mem_singleton.mp hmem
      by_contra hne
      rw [hbelow d hd hne] at hsome
      cases hsome
  · simp only [List.filterMap_cons, hpatch, List.filterMap_nil]
    exact Patch.splice?_whole (Tree.byteLength_text c.focus)

/-- A node with trees inserted between its children. -/
theorem insert {front back us₁ us₂ new : Forest} {before behind : List Cursor}
    (hc : c.focus = .node k (front ++ back))
    (hpatch : patch? c = some ⟨⟨c.start + Tree.forestWidth front, 0⟩, Tree.forestText new⟩)
    (hfront : Spliced patch? (Cursor.row c 0 c.start front) c.start (Tree.forestText front).toList
      (Tree.forestText us₁).toList before)
    (hback : Spliced patch? (Cursor.row c front.length (c.start + Tree.forestWidth front) back)
      (c.start + Tree.forestWidth front) (Tree.forestText back).toList
      (Tree.forestText us₂).toList behind) :
    Spliced patch? [c] c.start c.text.toList (Syntax.Tree.node k (us₁ ++ new ++ us₂)).text.toList
      (before ++ c :: behind) := by
  have hwidth : byteLength (Tree.forestText front).toList = Tree.forestWidth front :=
    Tree.byteLength_forestText front
  have helements : Cursor.row c 0 c.start front ++
      Cursor.row c front.length (c.start + Tree.forestWidth front) back = c.elements := by
    have hrow := row_append c 0 c.start front back
    rw [Nat.zero_add] at hrow
    rw [← hrow, elements, hc]
    rfl
  have hrow := hfront.append hback (by rw [hwidth]) fun e he e' he' d hbelow => by
    obtain ⟨-, hlt, hpath⟩ := index_of_mem_row he
    obtain ⟨hle, -, hpath'⟩ := index_of_mem_row he'
    exact not_below_of_index_ne hpath hpath' (by omega) hbelow
  rw [helements] at hrow
  have hperm : (before ++ c :: behind).Perm (c :: (before ++ behind)) := List.perm_middle
  have hnot : c ∉ before ++ behind := by
    intro hmem
    obtain ⟨⟨e, he, hbelow⟩, -⟩ := (hrow.mem c).mp hmem
    exact not_below_parent he hbelow
  have hnode : c.isNode = true := by rw [isNode, hc]; rfl
  refine ⟨hperm.nodup_iff.mpr (List.nodup_cons.mpr ⟨hnot, hrow.nodup⟩), fun d => ?_, ?_⟩
  · rw [hperm.mem_iff, List.mem_cons, hrow.mem]
    constructor
    · rintro (rfl | ⟨hbelow, hrest⟩)
      · exact ⟨⟨d, List.mem_singleton_self d, Below.refl d⟩, hnode, by simp [hpatch]⟩
      · exact ⟨⟨c, List.mem_singleton_self c, below_iff.mpr (.inr hbelow)⟩, hrest⟩
    · rintro ⟨⟨_, hmem, hbelow⟩, hrest⟩
      obtain rfl := List.mem_singleton.mp hmem
      rcases below_iff.mp hbelow with rfl | hbelow
      · exact .inl rfl
      · exact .inr ⟨hbelow, hrest⟩
  · -- The new trees stand in a stretch of no length, between those of the children.
    have hnew : Patch.splice? (c.start + Tree.forestWidth front)
        [⟨⟨c.start + Tree.forestWidth front, 0⟩, Tree.forestText new⟩] [] =
          some (Tree.forestText new).toList := Patch.splice?_whole rfl
    have hrest := Patch.splice?_append hnew hback.splice
    rw [List.nil_append] at hrest
    have hall := Patch.splice?_append hfront.splice (by rw [hwidth]; exact hrest)
    rw [Cursor.text, hc, Tree.text_node, Tree.text_node]
    simpa [hpatch] using hall

end Spliced

/-- Nodes with plans are patched, and their parents with them. -/
theorem spliced_rewriteAt (t : Tree) {c : Cursor} {u : Tree} (hc : c.focus = t)
    (hplan : ∀ d, Below c d → d.isNode = true → Plan edits patch? d)
    (hu : rewriteAt edits c.path t = .ok u) :
    ∃ places, Spliced patch? [c] c.start c.text.toList u.text.toList places := by
  induction t using Tree.inductionOn generalizing c u with
  | token k s =>
      obtain rfl : Tree.token k s = u := Except.ok.inj hu
      have hnode : c.isNode = false := by rw [isNode, hc]; rfl
      refine ⟨[], List.nodup_nil, fun d => ?_, by rw [Cursor.text, hc]; rfl⟩
      constructor
      · intro hmem
        cases hmem
      · rintro ⟨⟨_, hmem, hbelow⟩, hd, -⟩
        obtain rfl := List.mem_singleton.mp hmem
        rw [hbelow.eq_of_token hnode, hnode] at hd
        cases hd
  | node k cs ih =>
      have hnode : c.isNode = true := by rw [isNode, hc]; rfl
      have hchildren : c.focus.children = cs := by rw [hc]; rfl
      simp only [rewriteAt, bind_eq_ok_iff] at hu
      obtain ⟨us, hus, hu⟩ := hu
      have helement : ∀ e ∈ c.elements, ∀ v, rewriteAt edits e.path e.focus = .ok v →
          ∃ places, Spliced patch? [e] e.start e.text.toList v.text.toList places := by
        intro e he v hv
        refine ih e.focus (hchildren ▸ focus_mem_of_mem_elements he) rfl (fun d hd => ?_) hv
        exact hplan d ((below_of_mem_elements he).trans hd)
      have helements : Cursor.row c 0 c.start cs = c.elements := by rw [elements, hchildren]
      cases hplan c (Below.refl c) hnode with
      | keep hedits hpatch =>
          obtain rfl : Syntax.Tree.node k us = u := by simpa [hedits, changeNode] using hu
          rw [← helements] at helement
          obtain ⟨places, hrow⟩ := Spliced.row helement hus
          exact ⟨places, hrow.keep hc hpatch⟩
      | @replace edit new hedits hchange hpatch hbelow =>
          rw [hedits] at hu
          obtain ⟨_, hnew, rfl⟩ := changeNode_singleton.mp hu
          rw [hchange] at hnew
          obtain rfl := Except.ok.inj hnew
          exact ⟨[c], Spliced.replace hnode hpatch hbelow⟩
      | @insert edit e new hedits he hchange hpatch =>
          obtain ⟨i, t, ht, rfl⟩ := mem_elements_iff.mp he
          have hlength : (cs.take i).length = i := by
            have := (List.getElem?_eq_some_iff.mp (hchildren ▸ ht)).1
            rw [List.length_take]
            omega
          have hcs : cs = cs.take i ++ cs.drop i := (List.take_append_drop i cs).symm
          rw [hcs] at hus
          obtain ⟨us₁, us₂, hus₁, hus₂, hlen, rfl⟩ := rewriteRow_append_eq_ok hus
          rw [hlength] at hlen
          have hsplit := row_append c 0 c.start (cs.take i) (cs.drop i)
          rw [← hcs, helements] at hsplit
          rw [Nat.zero_add] at hsplit hus₂
          obtain ⟨before, hfront⟩ := Spliced.row
            (fun e he => helement e (hsplit ▸ List.mem_append_left _ he)) hus₁
          obtain ⟨behind, hback⟩ := Spliced.row
            (fun e he => helement e (hsplit ▸ List.mem_append_right _ he)) hus₂
          rw [hedits] at hu
          obtain ⟨_, hnew, rfl⟩ := changeNode_singleton.mp hu
          rw [hchange, index, NodeChange.insert_node (by simp [hlen])] at hnew
          obtain rfl := Except.ok.inj hnew
          rw [hchildren] at hpatch
          refine ⟨before ++ c :: behind, ?_⟩
          have hspliced := Spliced.insert (hcs ▸ hc) hpatch hfront hback
          simpa [hlen, Node.tree] using hspliced

end Refactor.Edit

end CSharpKit
