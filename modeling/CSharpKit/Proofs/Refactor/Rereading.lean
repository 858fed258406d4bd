import CSharpKit.Proofs.Refactor.TextEffect

/-!
# What is read back

The edits of an offer are made on trees. In the trees they make, every parameter
that changes keeps its name and has the delegate as its type. But a project keeps
texts: the text of such a tree is read again, and may be read as another tree.
-/

namespace CSharpKit.Refactor

open Syntax Text Workspace Semantics Cursor Outcome Declare Token

/-! ## Trees inside a rewritten tree -/

/-- A tree inside another one, or that one itself. -/
def Within (t u : Tree) : Prop := Relation.ReflTransGen (fun t c => c ∈ t.children) t u

/-- A tree inside another one stands at some place of it. -/
theorem Within.exists_below {t u : Tree} (h : Within t u) :
    ∃ c, Below (.root t) c ∧ c.focus = u := by
  induction h with
  | refl => exact ⟨.root t, Below.refl _, rfl⟩
  | tail _ hchild ih =>
      obtain ⟨c, hc, rfl⟩ := ih
      obtain ⟨e, he, rfl⟩ := exists_mem_elements hchild
      exact ⟨e, hc.element he, rfl⟩

namespace Edit

variable {edits : List Edit} {edit : Edit} {c : Cursor} {u : Tree}

/-- A node is changed when its children are rewritten. -/
theorem exists_of_rewriteAt (hnode : c.isNode = true)
    (hu : rewriteAt edits c.path c.focus = .ok u) :
    ∃ k cs us, c.focus = .node k cs ∧ rewriteRow edits c.path 0 cs = .ok us ∧
      changeNode (recordedAt edits c.path) (.node k us) = .ok u := by
  cases hfocus : c.focus with
  | token k s => simp [Cursor.isNode, hfocus, Tree.isNode] at hnode
  | node k cs =>
      rw [hfocus] at hu
      obtain ⟨us, hus, hu⟩ := bind_eq_ok_iff.mp hu
      exact ⟨k, cs, us, rfl, hus, hu⟩

/-- A node without an edit gets its rewritten children. -/
theorem rewriteAt_keep (hnode : c.isNode = true) (hedits : recordedAt edits c.path = [])
    (hu : rewriteAt edits c.path c.focus = .ok u) :
    ∃ k cs us, c.focus = .node k cs ∧ rewriteRow edits c.path 0 cs = .ok us ∧ u = .node k us := by
  obtain ⟨k, cs, us, hfocus, hus, hu⟩ := exists_of_rewriteAt hnode hu
  rw [hedits] at hu
  exact ⟨k, cs, us, hfocus, hus, (Except.ok.inj hu).symm⟩

/-- A node that is replaced becomes the new one. -/
theorem rewriteAt_replace {new : Node} (hnode : c.isNode = true)
    (hedits : recordedAt edits c.path = [edit]) (hchange : edit.change = NodeChange.replaceWith new)
    (hu : rewriteAt edits c.path c.focus = .ok u) : u = new.tree := by
  obtain ⟨k, cs, us, -, -, hu⟩ := exists_of_rewriteAt hnode hu
  rw [hedits] at hu
  obtain ⟨result, hresult, rfl⟩ := changeNode_singleton.mp hu
  rw [hchange] at hresult
  rw [Except.ok.inj hresult]

/-- Where trees are inserted into a node, its rewritten children stay around them. -/
theorem rewriteAt_insert {before : Cursor} {new : Forest}
    (hedits : recordedAt edits c.path = [edit]) (hbefore : before ∈ c.elements)
    (hchange : edit.change = NodeChange.insert before.index new)
    (hu : rewriteAt edits c.path c.focus = .ok u) :
    ∃ k cs us, c.focus = .node k cs ∧ rewriteRow edits c.path 0 cs = .ok us ∧
      u = .node k (us.take before.index ++ new ++ us.drop before.index) := by
  obtain ⟨k, cs, us, hfocus, hus, hu⟩ := exists_of_rewriteAt (isNode_of_mem_elements hbefore) hu
  rw [hedits] at hu
  obtain ⟨result, hresult, rfl⟩ := changeNode_singleton.mp hu
  have hget := getElem?_of_mem_elements hbefore
  rw [hfocus] at hget
  have hindex : before.index ≤ us.length := by
    rw [(rewriteRow_eq_ok_iff.mp hus).1]
    exact Nat.le_of_lt (List.getElem?_eq_some_iff.mp hget).1
  rw [hchange, NodeChange.insert_node hindex] at hresult
  obtain rfl := Except.ok.inj hresult
  exact ⟨k, cs, us, hfocus, hus, rfl⟩

end Edit

namespace PlacedEdit.Planned

variable {root : Tree} {placed : List PlacedEdit} (h : Planned root placed)
include h

/-- Above an edit nothing is replaced as a whole, so children stay children. -/
theorem within_of_rewriteAt {c e : Cursor} {p : PlacedEdit} {u : Tree} (hc : Below (.root root) c)
    (he : e ∈ c.elements) (hp : p ∈ placed) (hbelow : Below e p.place)
    (hu : Edit.rewriteAt (placed.map (·.edit)) c.path c.focus = .ok u) :
    ∃ v, Edit.rewriteAt (placed.map (·.edit)) e.path e.focus = .ok v ∧ v ∈ u.children := by
  obtain ⟨i, t, ht, rfl⟩ := mem_elements_iff.mp he
  cases h.plan hc with
  | keep hedits _ =>
      obtain ⟨k, cs, us, hfocus, hus, rfl⟩ :=
        Edit.rewriteAt_keep (isNode_of_mem_elements he) hedits hu
      rw [hfocus] at ht
      obtain ⟨v, hv, hrewrite⟩ := Edit.exists_of_rewriteRow ht hus
      exact ⟨v, hrewrite, List.mem_of_getElem? hv⟩
  | replace _ _ _ hnone =>
      have hne : p.place ≠ c := fun heq => not_below_parent he (heq ▸ hbelow)
      have hpatch := hnone p.place ((below_of_mem_elements he).trans hbelow) hne
      rw [h.patchAt?_place hp] at hpatch
      cases hpatch
  | @insert edit before new hedits hbefore hchange _ =>
      obtain ⟨k, cs, us, hfocus, hus, rfl⟩ := Edit.rewriteAt_insert hedits hbefore hchange hu
      rw [hfocus] at ht
      obtain ⟨v, hv, hrewrite⟩ := Edit.exists_of_rewriteRow ht hus
      refine ⟨v, hrewrite, ?_⟩
      have hmem : v ∈ us.take before.index ++ us.drop before.index := by
        rw [List.take_append_drop]
        exact List.mem_of_getElem? hv
      show v ∈ us.take before.index ++ new ++ us.drop before.index
      rcases List.mem_append.mp hmem with hmem | hmem
      · exact List.mem_append_left _ (List.mem_append_left _ hmem)
      · exact List.mem_append_right _ hmem

/-- A node above an edit is rewritten to a tree inside the new one. -/
theorem exists_within {d : Cursor} {p : PlacedEdit} {u : Tree} (hd : Below (.root root) d)
    (hp : p ∈ placed) (hbelow : Below d p.place)
    (hu : Edit.rewrite (placed.map (·.edit)) root = .ok u) :
    ∃ v, Edit.rewriteAt (placed.map (·.edit)) d.path d.focus = .ok v ∧ Within u v := by
  induction hd with
  | refl => exact ⟨u, hu, Relation.ReflTransGen.refl⟩
  | @tail c e hc he ih =>
      obtain ⟨v, hv, hwithin⟩ := ih ((below_of_mem_elements he).trans hbelow)
      obtain ⟨w, hw, hmem⟩ := h.within_of_rewriteAt hc he hp hbelow hv
      exact ⟨w, hw, hwithin.tail hmem⟩

/-- What is inserted is inside the new tree. -/
theorem within_of_insert {p : PlacedEdit} {before : Cursor} {new : Forest} {u t : Tree}
    (hp : p ∈ placed) (hbefore : before ∈ p.place.elements)
    (hchange : p.edit.change = NodeChange.insert before.index new) (ht : t ∈ new)
    (hu : Edit.rewrite (placed.map (·.edit)) root = .ok u) : Within u t := by
  obtain ⟨v, hv, hwithin⟩ := h.exists_within (h.below p hp).1 hp (Below.refl _) hu
  obtain ⟨k, cs, us, -, -, rfl⟩ :=
    Edit.rewriteAt_insert (h.recordedAt_place hp) hbefore hchange hv
  apply hwithin.tail
  show t ∈ us.take before.index ++ new ++ us.drop before.index
  exact List.mem_append_left _ (List.mem_append_right _ ht)

end PlacedEdit.Planned

/-! ## Parameters in a rewritten tree -/

/-- The rewritten children of a node, one for one. -/
theorem forall₂_row_of_rewriteRow {edits : List Edit} {c d : Cursor} {i pos pos' : Nat}
    {ts us : Forest} (h : Edit.rewriteRow edits c.path i ts = .ok us) :
    List.Forall₂ (fun e e' => Edit.rewriteAt edits e.path e.focus = .ok e'.focus)
      (row c i pos ts) (row d i pos' us) := by
  induction ts generalizing i pos pos' us with
  | nil =>
      obtain rfl : [] = us := Except.ok.inj h
      exact List.Forall₂.nil
  | cons t ts ih =>
      simp only [Edit.rewriteRow, bind_eq_ok_iff, pure_eq_ok_iff] at h
      obtain ⟨u, hu, us, hus, rfl⟩ := h
      exact List.Forall₂.cons hu (ih hus)

/-- An element that counts for the name and the type of a construct as another one
does. -/
structure Alike (e e' : Cursor) : Prop where
  isNode_eq : e.isNode = e'.isNode
  isType_eq : e.isNode = true → e.kind.isType = e'.kind.isType
  focus_eq : e.isNode = false → e.focus = e'.focus

section Alike

variable {c d : Cursor} {R : Cursor → Cursor → Prop}

theorem name?_eq_of_alike (h : List.Forall₂ Alike c.elements d.elements) : c.name? = d.name? := by
  have hfirst := find?_of_forall₂ (p := fun e => !e.isNode && e.kind == .identifier)
    (q := fun e => !e.isNode && e.kind == .identifier) h ?_
  · rw [name?_eq_find?, name?_eq_find?]
    rcases hfirst with ⟨hnone, hnone'⟩ | ⟨e, e', hfound, hfound', halike⟩
    · rw [hnone, hnone']
    · have hfits := List.find?_some hfound
      simp only [Bool.and_eq_true, Bool.not_eq_true'] at hfits
      rw [hfound, hfound', Option.map_some, Option.map_some, Cursor.text, Cursor.text,
        halike.focus_eq hfits.1]
  · intro e e' halike
    rw [← halike.isNode_eq]
    cases hnode : e.isNode with
    | true => rfl
    | false => rw [Cursor.kind, Cursor.kind, halike.focus_eq hnode]

theorem exists_type?_of_alike {written : Cursor}
    (h : List.Forall₂ (fun e e' => Alike e e' ∧ R e e') c.elements d.elements)
    (hwritten : c.type? = some written) : ∃ written', d.type? = some written' ∧ R written written' := by
  have hfirst := find?_of_forall₂ (p := fun e => e.isNode && e.kind.isType)
    (q := fun e => e.isNode && e.kind.isType) h ?_
  · rw [type?_eq_find?] at hwritten ⊢
    rcases hfirst with ⟨hnone, -⟩ | ⟨e, e', hfound, hfound', -, hrel⟩
    · rw [hnone] at hwritten
      cases hwritten
    · obtain rfl := Option.some.inj (hfound.symm.trans hwritten)
      exact ⟨e', hfound', hrel⟩
  · rintro e e' ⟨halike, -⟩
    rw [← halike.isNode_eq]
    cases hnode : e.isNode with
    | true => rw [halike.isType_eq hnode]
    | false => rfl

end Alike

/-- A parameter of a tree has the name of another one and writes a text as its type. -/
structure Retyped (param : Cursor) (text : String) (c : Cursor) : Prop where
  kind : c.kind = .parameter
  name_eq : c.name? = param.name?
  type_eq : c.type?.map Cursor.text = some text

namespace OfferedEdit

variable {doc : Document} {placed : List PlacedEdit} (h : ∀ p ∈ placed, OfferedEdit doc p)
  (hplanned : PlacedEdit.Planned doc.parsed.tree placed)
include h hplanned

/-- No edit of an offer makes a type of something else, or something else of a type. -/
theorem isType_of_rewriteAt {c : Cursor} {u : Tree} (hc : Below doc.root c)
    (hnode : c.isNode = true)
    (hu : Edit.rewriteAt (placed.map (·.edit)) c.path c.focus = .ok u) :
    u.isNode = true ∧ u.kind.isType = c.kind.isType := by
  obtain ⟨k, cs, us, hfocus, -, hu⟩ := Edit.exists_of_rewriteAt hnode hu
  have hkind : c.kind = k := by
    rw [Cursor.kind, hfocus]
    rfl
  by_cases hmem : c ∈ placed.map (·.place)
  · obtain ⟨p, hp, rfl⟩ := List.mem_map.mp hmem
    rw [hplanned.recordedAt_place hp] at hu
    obtain ⟨new, hnew, rfl⟩ := Edit.changeNode_singleton.mp hu
    refine ⟨rfl, ?_⟩
    cases h p hp with
    | declare _ _ _ hedit _ =>
        rw [hedit] at hnew
        simp only [NodeChange.insert] at hnew
        split at hnew
        · obtain rfl := Except.ok.inj hnew
          rw [hkind]
          rfl
        · cases hnew
    | retype _ _ hwritten htype hedit _ =>
        rw [hedit] at hnew
        obtain rfl := Except.ok.inj hnew
        rw [(mem_children_of_childOf? hwritten).2]
        exact htype
  · rw [hplanned.recordedAt_of_not hc hmem] at hu
    obtain rfl : Syntax.Tree.node k us = u := Except.ok.inj hu
    rw [hkind]
    exact ⟨rfl, rfl⟩

theorem alike_of_rewriteAt {e e' : Cursor} (he : Below doc.root e)
    (hrewrite : Edit.rewriteAt (placed.map (·.edit)) e.path e.focus = .ok e'.focus) :
    Alike e e' := by
  cases hnode : e.isNode with
  | true =>
      obtain ⟨hnode', htype⟩ := isType_of_rewriteAt h hplanned he hnode hrewrite
      constructor
      · exact hnode.trans hnode'.symm
      · intro _
        exact htype.symm
      · intro hfalse
        simp [hnode] at hfalse
  | false =>
      have hfocus : e.focus = e'.focus := by
        cases htoken : e.focus with
        | node k cs => simp [Cursor.isNode, htoken, Tree.isNode] at hnode
        | token k s =>
            rw [htoken] at hrewrite
            exact Except.ok.inj hrewrite
      constructor
      · rw [Cursor.isNode, Cursor.isNode, hfocus]
      · intro htrue
        simp [hnode] at htrue
      · intro _
        exact hfocus

/-- In the tree the edits make, a parameter with a new type is still there. -/
theorem exists_retyped {param : Cursor} {p : PlacedEdit} {new : Node} {root : Tree}
    (hparam : Below doc.root param) (hkind : param.kind = .parameter) (hp : p ∈ placed)
    (hwritten : param.type? = some p.place) (hedit : p.edit.change = NodeChange.replaceWith new)
    (hroot : Edit.rewrite (placed.map (·.edit)) doc.parsed.tree = .ok root) :
    ∃ c, Below (.root root) c ∧ Retyped param new.tree.text c := by
  have helement := mem_elements_of_mem_children (mem_children_of_childOf? hwritten).1
  obtain ⟨v, hv, hwithin⟩ := hplanned.exists_within hparam hp (below_of_mem_elements helement) hroot
  obtain ⟨c, hc, rfl⟩ := hwithin.exists_below
  refine ⟨c, hc, ?_⟩
  -- A parameter is no place of an edit, so what is new about it are its children.
  have hnot : param ∉ placed.map (·.place) := by
    intro hmem
    obtain ⟨q, hq, rfl⟩ := List.mem_map.mp hmem
    cases h q hq with
    | declare _ hdeclares _ _ _ => simp [hkind, Kind.isTypeDeclaration] at hdeclares
    | retype _ _ hother _ _ _ =>
        have htype := (mem_children_of_childOf? hother).2
        simp [hkind, Kind.isType] at htype
  obtain ⟨k, cs, us, hfocus, hus, hfocus'⟩ := Edit.rewriteAt_keep (isNode_of_mem_elements helement)
    (hplanned.recordedAt_of_not hparam hnot) hv
  have hrewritten : List.Forall₂ (fun e e' => Alike e e' ∧
      Edit.rewriteAt (placed.map (·.edit)) e.path e.focus = .ok e'.focus)
      param.elements c.elements := by
    have hrow : List.Forall₂ (fun e e' =>
        Edit.rewriteAt (placed.map (·.edit)) e.path e.focus = .ok e'.focus)
        param.elements c.elements := by
      rw [elements, elements, hfocus, hfocus']
      exact forall₂_row_of_rewriteRow hus
    have hmem := (List.forall₂_and_left _ _).mpr ⟨fun _ he => he, hrow⟩
    apply hmem.imp
    rintro e e' ⟨he, hrewrite⟩
    have hbelow := hparam.trans (below_of_mem_elements he)
    exact ⟨alike_of_rewriteAt h hplanned hbelow hrewrite, hrewrite⟩
  constructor
  · rw [← hkind, Cursor.kind, Cursor.kind, hfocus, hfocus']
    rfl
  · exact (name?_eq_of_alike (hrewritten.imp fun _ _ h => h.1)).symm
  · obtain ⟨w, htype, hw⟩ := exists_type?_of_alike hrewritten hwritten
    have hfocus := Edit.rewriteAt_replace (hplanned.below p hp).2 (hplanned.recordedAt_place hp)
      hedit hw
    rw [htype, Option.map_some, Cursor.text, hfocus]

end OfferedEdit

/-- Edits with patches that are made in a document give it the text of a tree. -/
theorem exists_root_of_planned {project next : Project} {placed : List PlacedEdit}
    {cancelled : Bool} {old : Document} (hold : old ∈ project.documents)
    (hplanned : PlacedEdit.Planned old.parsed.tree (placed.filter (·.edit.document == old.id)))
    {p : PlacedEdit} (hp : p ∈ placed.filter (·.edit.document == old.id))
    (hnext : applyEdits project (placed.map (·.edit)) cancelled = .ok next) :
    ∃ root, Edit.applyToTree (Edit.ofDocument (placed.map (·.edit)) old.id) old.parsed.tree =
        .ok root ∧
      Edit.rewrite ((placed.filter (·.edit.document == old.id)).map (·.edit)) old.parsed.tree =
        .ok root ∧
      next.document? old.id = some (old.withText root.text) := by
  obtain ⟨new, hnew, hcases⟩ := exists_left_of_mem (applyEdits_eq_ok hnext).2.flip hold
  rw [ofDocument_map_edit] at hcases ⊢
  rcases hcases with ⟨hnone, -⟩ | ⟨-, root, hroot, rfl⟩
  · rw [List.map_eq_nil_iff.mp hnone] at hp
    cases hp
  · have hrewrite := (Edit.applyToTree_ok_iff_rewrite hplanned.captured root).mp hroot
    exact ⟨root, hroot, hrewrite, Project.document?_of_mem hnew⟩

namespace Aim

variable {project : Project} {doc : Document} {param : Cursor} {target : OfferTarget}
  {sites : List Origin} (h : Aim project doc param target sites)
include h

theorem resolve : target.symbol.node.resolve doc.root = .ok (some param) := by
  rw [h.node_eq]
  exact (isFile_tree doc).resolve_parameter h.below h.isNode h.kind h.name_eq

theorem typedAt : TypedAt project ⟨doc.id, target.symbol.node⟩ doc param target.written :=
  ⟨h.doc_mem, by rw [h.node_eq], h.below, h.isNode, h.kind, h.written_eq,
    nodeAt?_of_resolve h.doc_mem h.resolve⟩

/-- The parameter of an offer changes as one that is passed on does. -/
theorem isForwarder_own : IsForwarder project doc target ⟨doc.id, target.symbol.node⟩
    ⟨target.written, ⟨doc.id, Tag.of target.written,
      NodeChange.replaceWith (Build.identifierName (delegateName target.symbol.name))⟩,
      ⟨target.written.span, delegateName target.symbol.name⟩⟩ := by
  refine ⟨doc, param, target.written, Build.identifierName (delegateName target.symbol.name),
    h.typedAt, ?_, rfl, ?_⟩
  · rw [text_identifierName]
  · rw [text_identifierName, h.typedAt.forwarderPatch?_eq]
    dsimp only
    rw [if_pos rfl]

/-- A parameter that an offer changes, before and in the edited tree. -/
theorem exists_retyped {declaration : Node} {ps : List PlacedEdit} {next : Project}
    (hps : List.Forall₂ (IsForwarder project doc target) sites ps)
    (hnext : applyEdits project ((placedEdits doc target declaration ps).map (·.edit)) false =
      .ok next) {site : Origin} (hsite : site ∈ ⟨doc.id, target.symbol.node⟩ :: sites) :
    ∃ old param written text root c, TypedAt project site old param written ∧
      forwarderPatch? project doc.id target.owner (delegateName target.symbol.name) site =
        some (old.id, ⟨written.span, text⟩) ∧
      Edit.applyToTree (Edit.ofDocument ((placedEdits doc target declaration ps).map (·.edit))
        old.id) old.parsed.tree = .ok root ∧
      next.document? old.id = some (old.withText root.text) ∧
      Below (.root root) c ∧ Retyped param text c := by
  obtain ⟨p, hp, old, param', written, new, htyped, rfl, -, hpatch⟩ :
      ∃ p ∈ placedEdits doc target declaration ps, IsForwarder project doc target site p := by
    rcases List.mem_cons.mp hsite with rfl | hsite
    · exact ⟨_, List.mem_cons_of_mem _ List.mem_cons_self, h.isForwarder_own⟩
    · obtain ⟨p, hp, hforwarder⟩ := exists_left_of_mem hps.flip hsite
      exact ⟨p, List.mem_cons_of_mem _ (List.mem_cons_of_mem _ hp), hforwarder⟩
  have hold := htyped.doc_mem
  have hmem := List.mem_filter_of_mem (p := (·.edit.document == old.id)) hp
    (beq_self_eq_true old.id)
  obtain ⟨root, hroot, hrewrite, hnewDoc⟩ :=
    exists_root_of_planned hold (h.planned hps hold) hmem hnext
  obtain ⟨c, hc, hretyped⟩ := OfferedEdit.exists_retyped (h.offeredEdit_of hps hold)
    (h.planned hps hold) htyped.below htyped.kind hmem htyped.written_eq rfl hrewrite
  exact ⟨old, param', written, _, root, c, htyped, hpatch, hroot, hnewDoc, hc, hretyped⟩

end Aim

/-- The parameters that the documents of a project have, by their names and types. -/
def parameterTexts (project : Project) : List (Option String × Option String) :=
  (project.documents.flatMap fun doc => doc.root.nodes.filter (·.kind == .parameter)).map fun p =>
    (p.name?, p.type?.map Cursor.text)

/-- A project where the type of a parameter and its name stand without a blank. -/
def crowdedProject : Project :=
  Project.empty.append
    (Document.read 0 "crowded.cs" "using System; class C { void M(Action<int>x) { } }" 0) rfl

end CSharpKit.Refactor
