import CSharpKit.Proofs.Refactor.Applying
import CSharpKit.Proofs.Semantics.Names
import CSharpKit.Proofs.Syntax.Fragments
import Mathlib.Data.List.Nodup

/-!
# What an offer does to the texts

An offer is applied to trees, and what comes out is text again. Seen from the
texts, a declaration is put before the method, and each written type that changes
is replaced where it stands. All other text stays as it is.
-/

namespace CSharpKit.Refactor

open Syntax Text Workspace Semantics Cursor Outcome Declare Token

/-! ## Edits as patches -/

/-- An edit with the node it changes and what it does to the text. -/
structure PlacedEdit where
  place : Cursor
  edit : Edit
  patch : Patch

namespace PlacedEdit

/-- A change of a node is a patch of the text. A node that is replaced takes with
it whatever is below, so no other change may be there. -/
inductive Fits (placed : List PlacedEdit) (p : PlacedEdit) : Prop
  | replace {new : Node} (hchange : p.edit.change = NodeChange.replaceWith new)
      (hpatch : p.patch = ⟨p.place.span, new.tree.text⟩)
      (hbelow : ∀ q ∈ placed, Below p.place q.place → q.place = p.place)
  | insert {e : Cursor} {new : Forest} (he : e ∈ p.place.elements)
      (hchange : p.edit.change = NodeChange.insert e.index new)
      (hpatch : p.patch = ⟨⟨e.start, 0⟩, Tree.forestText new⟩)

/-- Edits of different nodes of a tree, each with its patch. -/
structure Planned (root : Tree) (placed : List PlacedEdit) : Prop where
  below : ∀ p ∈ placed, Below (.root root) p.place ∧ p.place.isNode = true
  tag : ∀ p ∈ placed, p.edit.target = Tag.of p.place
  nodup : (placed.map (·.place)).Nodup
  fits : ∀ p ∈ placed, p.Fits placed

/-- The patch of the edit at a node. -/
def patchAt? (placed : List PlacedEdit) (c : Cursor) : Option Patch :=
  (placed.find? (·.place.path == c.path)).map (·.patch)

namespace Planned

variable {root : Tree} {placed : List PlacedEdit} (h : Planned root placed)
include h

theorem eq_of_path_eq {p q : PlacedEdit} (hp : p ∈ placed) (hq : q ∈ placed)
    (hpath : p.place.path = q.place.path) : p = q := by
  have hplace := (h.below p hp).1.eq_of_path_eq (h.below q hq).1 hpath
  exact List.inj_on_of_nodup_map h.nodup hp hq hplace

theorem patchAt?_place {p : PlacedEdit} (hp : p ∈ placed) :
    patchAt? placed p.place = some p.patch := by
  have hsome : (placed.find? (·.place.path == p.place.path)).isSome := by
    rw [List.find?_isSome]
    exact ⟨p, hp, beq_self_eq_true _⟩
  obtain ⟨q, hq⟩ := Option.isSome_iff_exists.mp hsome
  have hpath := List.find?_some hq
  obtain rfl := h.eq_of_path_eq (List.mem_of_find?_eq_some hq) hp (beq_iff_eq.mp hpath)
  rw [patchAt?, hq]
  rfl

theorem patchAt?_isSome {c : Cursor} (hc : Below (.root root) c) :
    (patchAt? placed c).isSome = true ↔ c ∈ placed.map (·.place) := by
  constructor
  · intro hsome
    rw [patchAt?, Option.isSome_map, List.find?_isSome] at hsome
    obtain ⟨p, hp, hpath⟩ := hsome
    have heq := (h.below p hp).1.eq_of_path_eq hc (beq_iff_eq.mp hpath)
    exact List.mem_map.mpr ⟨p, hp, heq⟩
  · intro hmem
    obtain ⟨p, hp, rfl⟩ := List.mem_map.mp hmem
    rw [h.patchAt?_place hp]
    rfl

/-- For the place of an edit nothing else is recorded. -/
theorem recordedAt_place {p : PlacedEdit} (hp : p ∈ placed) :
    Edit.recordedAt (placed.map (·.edit)) p.place.path = [p.edit] := by
  have hone : placed.filter (·.edit.target.path == p.place.path) = [p] := by
    refine List.perm_singleton.mp ((List.perm_ext_iff_of_nodup ?_ (List.nodup_singleton p)).mpr ?_)
    · exact (List.Nodup.of_map _ h.nodup).filter _
    · intro q
      rw [List.mem_filter, List.mem_singleton]
      constructor
      · rintro ⟨hq, hpath⟩
        rw [h.tag q hq] at hpath
        exact h.eq_of_path_eq hq hp (beq_iff_eq.mp hpath)
      · rintro rfl
        refine ⟨hp, ?_⟩
        rw [h.tag q hp]
        exact beq_self_eq_true _
  rw [Edit.recordedAt, List.filter_map]
  exact congrArg (List.map (·.edit)) hone

theorem recordedAt_of_not {c : Cursor} (hc : Below (.root root) c)
    (hnot : c ∉ placed.map (·.place)) : Edit.recordedAt (placed.map (·.edit)) c.path = [] := by
  refine List.filter_eq_nil_iff.mpr fun edit hedit hpath => ?_
  obtain ⟨p, hp, rfl⟩ := List.mem_map.mp hedit
  rw [h.tag p hp] at hpath
  have heq := (h.below p hp).1.eq_of_path_eq hc (beq_iff_eq.mp hpath)
  exact hnot (List.mem_map.mpr ⟨p, hp, heq⟩)

theorem plan {c : Cursor} (hc : Below (.root root) c) :
    Edit.Plan (placed.map (·.edit)) (patchAt? placed) c := by
  by_cases hmem : c ∈ placed.map (·.place)
  · obtain ⟨p, hp, rfl⟩ := List.mem_map.mp hmem
    have hedits := h.recordedAt_place hp
    have hpatchAt := h.patchAt?_place hp
    cases h.fits p hp with
    | replace hchange hpatch hbelow =>
        refine .replace hedits hchange (by rw [hpatchAt, hpatch]) fun d hd hne => ?_
        refine Option.not_isSome_iff_eq_none.mp fun hsome => ?_
        obtain ⟨q, hq, rfl⟩ := List.mem_map.mp ((h.patchAt?_isSome (hc.trans hd)).mp hsome)
        exact hne (hbelow q hq hd)
    | insert he hchange hpatch => exact .insert hedits he hchange (by rw [hpatchAt, hpatch])
  · refine .keep (h.recordedAt_of_not hc hmem) (Option.not_isSome_iff_eq_none.mp fun hsome => ?_)
    exact hmem ((h.patchAt?_isSome hc).mp hsome)

theorem captured : Edit.CapturedFrom root (placed.map (·.edit)) := by
  intro edit hedit
  obtain ⟨p, hp, rfl⟩ := List.mem_map.mp hedit
  obtain ⟨hbelow, hnode⟩ := h.below p hp
  exact ⟨p.place, hbelow.mem_nodes hnode, h.tag p hp⟩

/-- Edits with patches turn the text of a tree into the patched one. -/
theorem turn {u : Tree} (hu : Edit.rewrite (placed.map (·.edit)) root = .ok u) :
    Patch.Turn (placed.map (·.patch)) root.text u.text := by
  obtain ⟨places, hspliced⟩ := Edit.spliced_rewriteAt root (c := .root root) rfl
    (fun d hd _ => h.plan hd) hu
  have hperm : places.Perm (placed.map (·.place)) := by
    refine (List.perm_ext_iff_of_nodup hspliced.nodup h.nodup).mpr fun d => ?_
    rw [hspliced.mem]
    constructor
    · rintro ⟨⟨e, he, hbelow⟩, hnode, hsome⟩
      obtain rfl := List.mem_singleton.mp he
      exact (h.patchAt?_isSome hbelow).mp hsome
    · intro hmem
      obtain ⟨p, hp, rfl⟩ := List.mem_map.mp hmem
      obtain ⟨hbelow, hnode⟩ := h.below p hp
      exact ⟨⟨_, List.mem_singleton_self _, hbelow⟩, hnode, (h.patchAt?_isSome hbelow).mpr hmem⟩
  have hpatches : (placed.map (·.place)).filterMap (patchAt? placed) = placed.map (·.patch) := by
    rw [List.filterMap_map, ← List.filterMap_eq_map]
    exact List.filterMap_congr fun p hp => h.patchAt?_place hp
  refine ⟨places.filterMap (patchAt? placed), ?_, hspliced.splice⟩
  rw [← hpatches]
  exact hperm.filterMap _

end Planned

end PlacedEdit

/-! ## Patches of documents -/

/-- The patches of one document. -/
def patchesOf (patches : List (DocumentId × Patch)) (id : DocumentId) : List Patch :=
  (patches.filter (·.1 == id)).map (·.2)

/-- A document with patches put into its text all at once. -/
structure Patched (patches : List Patch) (old new : Document) : Prop where
  id_eq : new.id = old.id
  name_eq : new.name = old.name
  turn : Patch.Turn patches old.text new.text
  apart : Patch.Apart patches
  unchanged : patches = [] → new = old

theorem ofDocument_map_edit (placed : List PlacedEdit) (id : DocumentId) :
    Edit.ofDocument (placed.map (·.edit)) id =
      (placed.filter (·.edit.document == id)).map (·.edit) := List.filter_map

theorem patchesOf_map_patch (placed : List PlacedEdit) (id : DocumentId) :
    patchesOf (placed.map fun p => (p.edit.document, p.patch)) id =
      (placed.filter (·.edit.document == id)).map (·.patch) := by
  rw [patchesOf, List.filter_map, List.map_map]
  rfl

theorem text_tree (doc : Document) : doc.parsed.tree.text = doc.text :=
  text_of_leaves (isFile_tree doc).leaves

/-- Edits with patches change the texts of a project as their patches say. -/
theorem patched_of_planned {project next : Project} {cancelled : Bool} {placed : List PlacedEdit}
    (h : ∀ doc ∈ project.documents,
      PlacedEdit.Planned doc.parsed.tree (placed.filter (·.edit.document == doc.id)))
    (hnext : applyEdits project (placed.map (·.edit)) cancelled = .ok next) :
    next.nextId = project.nextId ∧ List.Forall₂ (fun old new => Patched
      (patchesOf (placed.map fun p => (p.edit.document, p.patch)) old.id) old new)
      project.documents next.documents := by
  obtain ⟨hnextId, hdocs⟩ := applyEdits_eq_ok hnext
  refine ⟨hnextId, List.Forall₂.imp ?_ (List.forall₂_and_left _ _ |>.mpr ⟨fun _ h => h, hdocs⟩)⟩
  rintro old new ⟨hold, hcases⟩
  have hplanned := h old hold
  rw [ofDocument_map_edit] at hcases
  rw [patchesOf_map_patch]
  rcases hcases with ⟨hnone, rfl⟩ | ⟨hsome, root, hroot, rfl⟩
  · rw [List.map_eq_nil_iff.mp hnone]
    exact ⟨rfl, rfl, ⟨[], List.Perm.refl _, rfl⟩, List.Pairwise.nil, fun _ => rfl⟩
  · rw [Edit.applyToTree_ok_iff_rewrite hplanned.captured] at hroot
    have hturn := hplanned.turn hroot
    rw [text_tree] at hturn
    refine ⟨rfl, rfl, hturn, hturn.apart, fun hnil => absurd ?_ hsome⟩
    rw [List.map_eq_nil_iff.mp hnil]
    rfl

/-! ## Nodes that an offer changes -/

/-- A type declaration, or the written type of a parameter. -/
def IsChanged (c : Cursor) : Prop :=
  c.kind.isTypeDeclaration = true ∨ ∃ param : Cursor, param.kind = .parameter ∧ param.type? = some c

/-- The parameter is told by the type it writes. -/
theorem eq_of_type?_eq {param other written : Cursor} (h : param.type? = some written)
    (h' : other.type? = some written) : param = other := by
  have hup := parent?_of_mem_elements
    (mem_elements_of_mem_children (mem_children_of_childOf? h).1)
  rw [parent?_of_mem_elements (mem_elements_of_mem_children (mem_children_of_childOf? h').1)] at hup
  exact (Option.some.inj hup).symm

/-- In a written type there is nothing else that changes. -/
theorem eq_of_below_written {doc : Document} {param written d : Cursor}
    (hparam : Below doc.root param) (hwritten : param.type? = some written) (hd : Below written d)
    (hnode : d.isNode = true) (hchanged : IsChanged d) : d = written := by
  obtain ⟨hmem, hkind⟩ := mem_children_of_childOf? hwritten
  have htype := (isFile_tree doc).isTypeSyntax (hparam.trans (below_of_mem_children hmem))
    (isNode_of_mem_children hmem) hkind
  have part {e : Cursor} (he : Below written e) (heNode : e.isNode = true) :
      Tree.isTypePart e.kind = true := by
    have hall := he.all htype
    rw [Cursor.kind]
    cases hfocus : e.focus with
    | token k s => simp [Cursor.isNode, hfocus, Tree.isNode] at heNode
    | node k cs =>
        rw [hfocus] at hall
        exact (Tree.all_node.mp hall).1
  rcases hchanged with hdeclaration | ⟨param', hparamKind, htype'⟩
  · have hpart := part hd hnode
    cases hdkind : d.kind <;> simp [hdkind, Kind.isTypeDeclaration] at hdeclaration <;>
      simp [hdkind, Tree.isTypePart, Kind.isType] at hpart
  · rcases hd.cases_tail with rfl | ⟨p, hp, hdp⟩
    · rfl
    · have hup := parent?_of_mem_elements
        (mem_elements_of_mem_children (mem_children_of_childOf? htype').1)
      obtain rfl : p = param' :=
        Option.some.inj ((parent?_of_mem_elements hdp).symm.trans hup)
      have hpart := part hp (isNode_of_mem_elements hdp)
      simp [hparamKind, Tree.isTypePart, Kind.isType] at hpart

/-- An edit of an offer: a declaration is put before a member of a type declaration,
or the written type of a parameter is replaced. -/
inductive OfferedEdit (doc : Document) (p : PlacedEdit) : Prop
  | declare {e : Cursor} {new : Forest} (hbelow : Below doc.root p.place)
      (hkind : p.place.kind.isTypeDeclaration = true) (he : e ∈ p.place.elements)
      (hedit : p.edit = ⟨doc.id, Tag.of p.place, NodeChange.insert e.index new⟩)
      (hpatch : p.patch = ⟨⟨e.start, 0⟩, Tree.forestText new⟩)
  | retype {param : Cursor} {new : Node} (hbelow : Below doc.root param)
      (hkind : param.kind = .parameter) (hwritten : param.type? = some p.place)
      (hnew : new.kind.isType = true)
      (hedit : p.edit = ⟨doc.id, Tag.of p.place, NodeChange.replaceWith new⟩)
      (hpatch : p.patch = ⟨p.place.span, new.tree.text⟩)

namespace OfferedEdit

variable {doc : Document} {p : PlacedEdit}

theorem edit_eq (h : OfferedEdit doc p) :
    p.edit.document = doc.id ∧ p.edit.target = Tag.of p.place := by
  cases h with
  | declare _ _ _ hedit _ | retype _ _ _ _ hedit _ =>
      rw [hedit]
      exact ⟨rfl, rfl⟩

theorem below (h : OfferedEdit doc p) : Below doc.root p.place ∧ p.place.isNode = true := by
  cases h with
  | declare hbelow _ he _ _ => exact ⟨hbelow, isNode_of_mem_elements he⟩
  | retype hbelow _ hwritten _ _ _ =>
      have hchild := (mem_children_of_childOf? hwritten).1
      exact ⟨hbelow.trans (below_of_mem_children hchild), isNode_of_mem_children hchild⟩

theorem isChanged (h : OfferedEdit doc p) : IsChanged p.place := by
  cases h with
  | declare _ hkind _ _ _ => exact .inl hkind
  | retype _ hkind hwritten _ _ _ => exact .inr ⟨_, hkind, hwritten⟩

/-- Edits of an offer at different nodes of a document are patches of its text. -/
theorem planned {placed : List PlacedEdit} (h : ∀ p ∈ placed, OfferedEdit doc p)
    (hnodup : (placed.map (·.place)).Nodup) : PlacedEdit.Planned doc.parsed.tree placed := by
  refine ⟨fun p hp => (h p hp).below, fun p hp => (h p hp).edit_eq.2, hnodup, fun p hp => ?_⟩
  cases h p hp with
  | declare _ _ he hedit hpatch => exact .insert he (by rw [hedit]) hpatch
  | retype hbelow _ hwritten _ hedit hpatch =>
      refine .replace (by rw [hedit]) hpatch fun q hq hbelowWritten => ?_
      exact eq_of_below_written hbelow hwritten hbelowWritten (h q hq).below.2 (h q hq).isChanged

end OfferedEdit

/-! ## The patches of an offer -/

theorem tight_delegateName {name : String} (h : Tight name) : Tight (delegateName name) := by
  unfold delegateName
  split
  · exact tight_empty
  · next first rest hname =>
    intro c hc
    have hall : ∀ d ∈ first :: rest, opensTrivia d = false := hname ▸ h
    rw [String.toList_ofList] at hc
    rcases List.mem_append.mp hc with hc | hc
    · exact not_opensTrivia_of_mem_upperCase (hall first List.mem_cons_self) hc
    · exact hall c (List.mem_cons_of_mem _ hc)

theorem text_identifierName (name : String) : (Build.identifierName name).tree.text = name := by
  apply String.toList_injective
  simp [Build.identifierName, Node.tree, Tree.text, Tree.leaves, Tree.forestLeaves]

theorem forestText_pair (node : Node) (kind : Kind) (text : String) :
    Tree.forestText [node, .token kind text] = node.tree.text ++ text := by
  apply String.toList_injective
  simp [Tree.text, Tree.leaves]

/-- What becomes of the written type of a parameter that is passed on: the name of
the delegate, in another document behind the type that declares it. -/
def forwarderPatch? (project : Project) (document : DocumentId) (owner : TypeId) (name : String)
    (site : Origin) : Option (DocumentId × Patch) := do
  let written ← ((nodeAt? project site).filter (·.kind == .parameter)).bind Cursor.type?
  let container := Model.spelling ⟨.ofProject project, site.document⟩ (.plain owner) written
  let text := if site.document = document then name else s!"{container}.{name}"
  return (site.document, ⟨written.span, text⟩)

theorem TypedAt.forwarderPatch?_eq {project : Project} {site : Origin} {doc : Document}
    {param written : Cursor} (h : TypedAt project site doc param written) (document : DocumentId)
    (owner : TypeId) (name : String) :
    forwarderPatch? project document owner name site = some (doc.id, ⟨written.span,
      let container := Model.spelling ⟨.ofProject project, doc.id⟩ (.plain owner) written
      if doc.id = document then name else s!"{container}.{name}"⟩) := by
  have hdocument : site.document = doc.id := by rw [h.site_eq]
  simp only [forwarderPatch?, h.nodeAt?_eq, h.kind, h.written_eq, Option.filter,
    beq_self_eq_true, if_true, Option.bind_some, hdocument]
  rfl

/-- What happens where the delegate is declared: its declaration and a separator are
put before the method, and its name replaces the type of the parameter. -/
def declarationPatches (doc : Document) (target : OfferTarget) (declaration : Node)
    (name : String) : List (DocumentId × Patch) :=
  let separator := memberSeparator doc.text target.method.start
  [(doc.id, ⟨⟨target.method.start, 0⟩, declaration.tree.text ++ separator⟩),
    (doc.id, ⟨target.written.span, name⟩)]

/-- The edits of an offer with their patches: a declaration, the type of the
parameter, and those of the parameters that are passed on. -/
def placedEdits (doc : Document) (target : OfferTarget) (declaration : Node)
    (others : List PlacedEdit) : List PlacedEdit :=
  let name := delegateName target.symbol.name
  let separator := memberSeparator doc.text target.method.start
  ⟨target.declaration, ⟨doc.id, Tag.of target.declaration, NodeChange.insert target.method.index
      [declaration, .token .whitespace separator]⟩,
      ⟨⟨target.method.start, 0⟩, declaration.tree.text ++ separator⟩⟩ ::
    ⟨target.written, ⟨doc.id, Tag.of target.written,
      NodeChange.replaceWith (Build.identifierName name)⟩, ⟨target.written.span, name⟩⟩ :: others

/-- The edit of a parameter that is passed on, with its patch. -/
def IsForwarder (project : Project) (doc : Document) (target : OfferTarget) (site : Origin)
    (p : PlacedEdit) : Prop :=
  ∃ doc' param written new, TypedAt project site doc' param written ∧
    p = ⟨written, ⟨doc'.id, Tag.of written, NodeChange.replaceWith new⟩,
      ⟨written.span, new.tree.text⟩⟩ ∧ new.kind.isType = true ∧
    forwarderPatch? project doc.id target.owner (delegateName target.symbol.name) site =
      some (doc'.id, ⟨written.span, new.tree.text⟩)

variable {project : Project}

namespace Aim

variable {doc : Document} {param : Cursor} {target : OfferTarget} {sites : List Origin}
  (h : Aim project doc param target sites)
include h

theorem tight_name : Tight (delegateName target.symbol.name) :=
  tight_delegateName ((isFile_tree doc).tight_name h.below h.name_eq)

/-- The edit of a site has the text that its patch says. -/
theorem isForwarder {site : Origin} {edit : Edit}
    (hedit : IsForwarderEdit project doc target site edit) :
    ∃ p, IsForwarder project doc target site p ∧ p.edit = edit := by
  obtain ⟨other, param, written, new, htyped, rfl, hnew⟩ := hedit
  refine ⟨⟨written, _, ⟨written.span, new.tree.text⟩⟩, ?_, rfl⟩
  have hkind : new.kind.isType = true := by
    split at hnew
    · rw [hnew]
      rfl
    · exact (exists_of_parseType hnew).1
  refine ⟨other, param, written, new, htyped, rfl, hkind, ?_⟩
  rw [htyped.forwarderPatch?_eq]
  dsimp only
  split at hnew
  · next hsame => rw [hnew, text_identifierName, if_pos hsame]
  · next hother =>
    rw [if_neg hother, text_of_parseType ?_ hnew]
    have hcontainer : Tight (Model.spelling ⟨.ofProject project, other.id⟩ (.plain target.owner)
        written) := TightNames.spelling (TightNames.ofProject project) target.owner written
    exact (hcontainer.append (by decide)).append h.tight_name

/-- All edits of an offer, with their nodes and patches. -/
theorem exists_placed {edits : List Edit}
    (hedits : offerEdits project (.of doc target) false = .ok edits) :
    ∃ declaration ps, delegateDeclaration ⟨.ofProject project, doc.id⟩ target.shape
        (delegateName target.symbol.name) target.method = .ok declaration ∧
      List.Forall₂ (IsForwarder project doc target) sites ps ∧
      edits = (placedEdits doc target declaration ps).map (·.edit) := by
  obtain ⟨declaration, others, hdeclaration, rfl, hothers⟩ := h.offerEdits_eq_ok hedits
  obtain ⟨ps, hps, rfl⟩ := exists_map_eq (hothers.imp fun _ _ hedit => h.isForwarder hedit)
  exact ⟨declaration, ps, hdeclaration, hps, rfl⟩

/-- An offer that was applied, by its edits and their patches. -/
theorem exists_placed_of_applyOffer {cancelled : Bool} {next : Project}
    (hnext : applyOffer project (.of doc target) cancelled = .ok next) :
    cancelled = false ∧ ∃ declaration ps,
      delegateDeclaration ⟨.ofProject project, doc.id⟩ target.shape
        (delegateName target.symbol.name) target.method = .ok declaration ∧
      List.Forall₂ (IsForwarder project doc target) sites ps ∧
      offerEdits project (.of doc target) cancelled =
        .ok ((placedEdits doc target declaration ps).map (·.edit)) ∧
      applyEdits project ((placedEdits doc target declaration ps).map (·.edit)) cancelled =
        .ok next := by
  obtain ⟨_, hfresh, hnext⟩ := bind_eq_ok_iff.mp hnext
  obtain rfl : cancelled = false := by
    cases cancelled with
    | true => cases hfresh
    | false => rfl
  obtain ⟨edits, hedits, hnext⟩ := bind_eq_ok_iff.mp hnext
  obtain ⟨declaration, ps, hdeclaration, hps, rfl⟩ := h.exists_placed hedits
  exact ⟨rfl, declaration, ps, hdeclaration, hps, hedits, hnext⟩

variable {declaration : Node} {ps : List PlacedEdit}
  (hps : List.Forall₂ (IsForwarder project doc target) sites ps)
include hps

/-- Every edit of an offer is one of a document of the project. -/
theorem offeredEdit : ∀ p ∈ placedEdits doc target declaration ps,
    ∃ other ∈ project.documents, OfferedEdit other p := by
  intro p hp
  rcases List.mem_cons.mp hp with rfl | hp
  · refine ⟨doc, h.doc_mem, ?_⟩
    refine .declare h.declaration_below h.declares (mem_elements_of_mem_children h.method_mem) rfl ?_
    rw [forestText_pair]
  rcases List.mem_cons.mp hp with rfl | hp
  · refine ⟨doc, h.doc_mem, .retype h.below h.kind h.written_eq rfl rfl ?_⟩
    rw [text_identifierName]
  · obtain ⟨site, -, other, param', written, new, htyped, rfl, hnew, -⟩ := exists_left_of_mem hps hp
    exact ⟨other, htyped.doc_mem, .retype htyped.below htyped.kind htyped.written_eq hnew rfl rfl⟩

/-- No two edits of an offer are for the same node. -/
theorem places_ne : (placedEdits doc target declaration ps).Pairwise
    fun p q => p.edit.document = q.edit.document → p.place ≠ q.place := by
  -- A declaration is no type, so only written types can be the same node.
  have declaration_ne {written other : Cursor} (hwritten : other.type? = some written) :
      target.declaration ≠ written := by
    rintro rfl
    have hkind := (mem_children_of_childOf? hwritten).2
    have hdeclares := h.declares
    cases hk : target.declaration.kind <;> simp [hk, Kind.isTypeDeclaration] at hdeclares <;>
      simp [hk, Kind.isType] at hkind
  refine List.pairwise_cons.mpr ⟨?_, List.pairwise_cons.mpr ⟨?_, ?_⟩⟩
  · intro q hq _
    rcases List.mem_cons.mp hq with rfl | hq
    · exact declaration_ne h.written_eq
    · obtain ⟨site, -, other, param', written, new, htyped, rfl, -⟩ := exists_left_of_mem hps hq
      exact declaration_ne htyped.written_eq
  · intro q hq hdocument hplace
    obtain ⟨site, hsite, other, param', written, new, htyped, rfl, -⟩ := exists_left_of_mem hps hq
    obtain rfl : doc = other := Project.eq_of_id_eq h.doc_mem htyped.doc_mem hdocument
    obtain rfl : target.written = written := hplace
    obtain rfl := eq_of_type?_eq h.written_eq htyped.written_eq
    refine (h.sites_typed site hsite).1 ?_
    rw [htyped.site_eq, h.node_eq]
  · refine pairwise_of_forall₂ hps h.sites_nodup ?_
    rintro site p site' p' ⟨doc₁, param₁, written₁, new₁, h₁, rfl, -⟩
      ⟨doc₂, param₂, written₂, new₂, h₂, rfl, -⟩ hne hdocument hplace
    obtain rfl : doc₁ = doc₂ := Project.eq_of_id_eq h₁.doc_mem h₂.doc_mem hdocument
    obtain rfl : written₁ = written₂ := hplace
    obtain rfl := eq_of_type?_eq h₁.written_eq h₂.written_eq
    exact hne (h₁.site_eq.trans h₂.site_eq.symm)

/-- The edits of an offer in one document. -/
theorem offeredEdit_of {other : Document} (hother : other ∈ project.documents) :
    ∀ p ∈ (placedEdits doc target declaration ps).filter (·.edit.document == other.id),
      OfferedEdit other p := by
  intro p hp
  obtain ⟨hp, hid⟩ := List.mem_filter.mp hp
  obtain ⟨found, hfound, hoffered⟩ := h.offeredEdit hps p hp
  have hsame := hoffered.edit_eq.1.symm.trans (beq_iff_eq.mp hid)
  obtain rfl := Project.eq_of_id_eq hfound hother hsame
  exact hoffered

theorem planned {other : Document} (hother : other ∈ project.documents) :
    PlacedEdit.Planned other.parsed.tree
      ((placedEdits doc target declaration ps).filter (·.edit.document == other.id)) := by
  refine OfferedEdit.planned (h.offeredEdit_of hps hother) ?_
  rw [List.Nodup, List.pairwise_map]
  refine List.Pairwise.imp_of_mem ?_ ((h.places_ne hps).filter _)
  intro p q hp hq hne
  have hp := beq_iff_eq.mp (List.mem_filter.mp hp).2
  have hq := beq_iff_eq.mp (List.mem_filter.mp hq).2
  exact hne (hp.trans hq.symm)

end Aim

/-- **What an offer does to the texts.** Whatever the project, if an offer that was
computed on it is applied, then the texts of the documents change all at once as
follows, and nothing else of the project does. In the document of the offer the
declaration of the delegate and a separator are put before the method, and the
name of the delegate replaces the written type of the parameter. Wherever a caller
passes a parameter of its own on to it, the written type of that one is replaced:
by the name in the same document, and in another one by the name behind the type
that declares it, as that is spelled there. No two of these stretches overlap. -/
theorem applyOffer_patches (project : Project) (document : DocumentId) (span : Span)
    (cancelled cancelledLater : Bool) (offer : DelegateOffer) (next : Project)
    (hoffer : offerAt project document span cancelled = .ok (some offer))
    (hnext : applyOffer project offer cancelledLater = .ok next) :
    ∃ doc target declaration sites others, project.document? offer.document = some doc ∧
      OfferTarget.find? ⟨.ofProject project, doc.id⟩ doc.root offer.parameter = some target ∧
      delegateDeclaration ⟨.ofProject project, doc.id⟩ target.shape offer.delegateName
        target.method = .ok declaration ∧
      findForwarders (.ofProject project) project doc.id target.symbol cancelledLater = .ok sites ∧
      sites.mapM (forwarderPatch? project doc.id target.owner offer.delegateName) = some others ∧
      next.nextId = project.nextId ∧
      List.Forall₂ (fun old new => Patched
          (patchesOf (declarationPatches doc target declaration offer.delegateName ++ others) old.id)
          old new)
        project.documents next.documents := by
  obtain ⟨doc, param, target, sites, haim, -, rfl⟩ := aim_of_offerAt hoffer
  obtain ⟨rfl, declaration, ps, hdeclaration, hps, -, hnext⟩ := haim.exists_placed_of_applyOffer hnext
  obtain ⟨hnextId, hdocs⟩ := patched_of_planned (fun other hother => haim.planned hps hother) hnext
  refine ⟨doc, target, declaration, sites, ps.map fun p => (p.edit.document, p.patch),
    Project.document?_of_mem haim.doc_mem, haim.find?_eq, hdeclaration, haim.sites_eq, ?_, hnextId, ?_⟩
  · refine mapM_eq_some_iff.mpr (List.forall₂_map_right_iff.mpr (hps.imp ?_))
    rintro site p ⟨other, param', written, new, -, rfl, -, hpatch⟩
    exact hpatch
  · exact hdocs

/-- A project where a caller in another document passes its parameter on. -/
def forwardingProject : Project :=
  (Project.empty.append (Document.read 0 "callee.cs"
    "using System; class C { static void M(Action<int> a) { } }" 0) rfl).append
    (Document.read 1 "caller.cs" "using System; class D { void P(Action<int> c) { C.M(c); } }" 0) rfl

/-- Whether a caller in another document passes on the parameter of an offer. -/
def passedOnElsewhere (project : Project) (offer : DelegateOffer) : Bool :=
  (project.document? offer.document).any fun doc =>
    (OfferTarget.find? ⟨.ofProject project, doc.id⟩ doc.root offer.parameter).any fun target =>
      (findForwarders (.ofProject project) project doc.id target.symbol false).toOption.any
        fun sites => sites.any fun site => site.document != doc.id

/-- The offer in the project, with the texts that it leads to. -/
theorem exists_offer_forwardingProject :
    ∃ offer next, offerAt forwardingProject 0 ⟨38, 13⟩ false = .ok (some offer) ∧
      applyOffer forwardingProject offer false = .ok next ∧
      next.documents.map (·.text) =
        ["using System; class C { public delegate void A(int obj); static void M(A a) { } }",
          "using System; class D { void P(C.A c) { C.M(c); } }"] ∧
      passedOnElsewhere forwardingProject offer = true := by
  obtain ⟨offer, next, hoffer, hnext, hcheck⟩ := exists_of_afterOffer? forwardingProject 0 ⟨38, 13⟩
    (fun project offer next => next.documents.map (·.text) ==
        ["using System; class C { public delegate void A(int obj); static void M(A a) { } }",
          "using System; class D { void P(C.A c) { C.M(c); } }"] &&
      passedOnElsewhere project offer) (by decide +kernel)
  simp only [Bool.and_eq_true, beq_iff_eq] at hcheck
  exact ⟨offer, next, hoffer, hnext, hcheck⟩

theorem applyOffer_patches_forwarding :
    ∃ offer next, offerAt forwardingProject 0 ⟨38, 13⟩ false = .ok (some offer) ∧
      applyOffer forwardingProject offer false = .ok next ∧
      List.Forall₂ (fun old new => ∃ patches, Patched patches old new) forwardingProject.documents
        next.documents ∧
      next.documents.map (·.text) =
        ["using System; class C { public delegate void A(int obj); static void M(A a) { } }",
          "using System; class D { void P(C.A c) { C.M(c); } }"] := by
  obtain ⟨offer, next, hoffer, hnext, htexts, -⟩ := exists_offer_forwardingProject
  obtain ⟨_, _, _, _, _, -, -, -, -, -, -, hdocs⟩ :=
    applyOffer_patches _ _ _ _ _ _ _ hoffer hnext
  exact ⟨offer, next, hoffer, hnext, hdocs.imp fun _ _ h => ⟨_, h⟩, htexts⟩

end CSharpKit.Refactor
