import CSharpKit.Proofs.Refactor.Splicing
import CSharpKit.Proofs.Refactor.Targets
import CSharpKit.Proofs.Workspace.QuickReading

/-!
# An offer can be applied

Every target of the edits that an offer stands for is a node of its document, and
no change of a node fails: a type is replaced as a whole, and the delegate is put
before a child that the declaration has. So what may fail is the spelling of a
type, and nothing else.
-/

namespace CSharpKit.Refactor

open Syntax Text Workspace Semantics Cursor Outcome Declare

namespace Edit

variable {edits : List Edit}

/-! ## Rewrites that succeed -/

theorem rewriteRow_ok {path : List Nat} {i : Nat} {ts : Forest}
    (h : ∀ j t, ts[j]? = some t → ∃ u, rewriteAt edits (path ++ [i + j]) t = .ok u) :
    ∃ us, rewriteRow edits path i ts = .ok us := by
  induction ts generalizing i with
  | nil => exact ⟨[], rfl⟩
  | cons t ts ih =>
      obtain ⟨u, hu⟩ := h 0 t rfl
      obtain ⟨us, hus⟩ := ih (i := i + 1) fun j t' ht' => by
        have hj := h (j + 1) t' (by simpa using ht')
        rwa [Nat.add_comm j 1, ← Nat.add_assoc] at hj
      refine ⟨u :: us, ?_⟩
      simp only [rewriteRow, bind_eq_ok_iff, pure_eq_ok_iff]
      exact ⟨u, hu, us, hus, rfl⟩

/-- A rewrite succeeds if the changes of each node do, whatever became of its
children. -/
theorem rewriteAt_ok (t : Tree) {path : List Nat}
    (h : ∀ below k cs us, t.nodeAt? below = some (.node k cs) → us.length = cs.length →
      ∃ u, changeNode (recordedAt edits (path ++ below)) (.node k us) = .ok u) :
    ∃ u, rewriteAt edits path t = .ok u := by
  induction t using Tree.inductionOn generalizing path with
  | token k s => exact ⟨_, rfl⟩
  | node k cs ih =>
      have hrow : ∃ us, rewriteRow edits path 0 cs = .ok us := by
        refine rewriteRow_ok fun j t ht => ?_
        refine ih t (List.mem_of_getElem? ht) fun below k' cs' us hbelow hlen => ?_
        have hnode : t.isNode = true := by
          cases t with
          | node => rfl
          | token k s =>
              cases below with
              | nil => simp at hbelow
              | cons i below => simp [Tree.nodeAt?, Tree.children] at hbelow
        have hstep := h (j :: below) k' cs' us
          (Tree.nodeAt?_cons_eq_some.mpr ⟨t, ht, hnode, hbelow⟩) hlen
        simpa using hstep
      obtain ⟨us, hus⟩ := hrow
      obtain ⟨u, hu⟩ := h [] k cs us rfl (rewriteRow_eq_ok_iff.mp hus).1
      refine ⟨u, ?_⟩
      rw [List.append_nil] at hu
      simp only [rewriteAt, bind_eq_ok_iff]
      exact ⟨us, hus, hu⟩

/-- A change that succeeds on every node. -/
def IsTotal (edit : Edit) : Prop := ∀ t, ∃ new, edit.change t = .ok new

theorem isTotal_replaceWith (document : DocumentId) (target : Tag) (new : Node) :
    IsTotal ⟨document, target, NodeChange.replaceWith new⟩ := fun _ => ⟨new, rfl⟩

theorem changeNode_ok {list : List Edit} (h : ∀ edit ∈ list, IsTotal edit) (t : Tree) :
    ∃ u, changeNode list t = .ok u := by
  induction list generalizing t with
  | nil => exact ⟨t, rfl⟩
  | cons edit list ih =>
      obtain ⟨new, hnew⟩ := h edit List.mem_cons_self t
      obtain ⟨u, hu⟩ := ih (fun e he => h e (List.mem_cons_of_mem _ he)) new.tree
      refine ⟨u, ?_⟩
      simp only [changeNode, List.foldlM_cons, bind_eq_ok_iff, pure_eq_ok_iff]
      exact ⟨new.tree, ⟨new, hnew, rfl⟩, hu⟩

/-- Of the edits of a tree only the first one may fail, and it does not. -/
theorem rewrite_ok {root : Tree} {first : Edit} {rest : List Edit}
    (hfirst : ∀ k cs us, root.nodeAt? first.target.path = some (.node k cs) →
      us.length = cs.length → ∃ new, first.change (.node k us) = .ok new)
    (hrest : ∀ edit ∈ rest, IsTotal edit) : ∃ t, rewrite (first :: rest) root = .ok t := by
  refine rewriteAt_ok root fun below k cs us hbelow hlen => ?_
  have hothers : ∀ edit ∈ recordedAt rest ([] ++ below), IsTotal edit :=
    fun edit hedit => hrest edit (List.mem_filter.mp hedit).1
  by_cases hpath : first.target.path = [] ++ below
  · obtain ⟨new, hnew⟩ := hfirst k cs us (by rw [hpath]; exact hbelow) hlen
    obtain ⟨u, hu⟩ := changeNode_ok hothers new.tree
    refine ⟨u, ?_⟩
    have hrecorded : recordedAt (first :: rest) ([] ++ below) =
        first :: recordedAt rest ([] ++ below) := by
      simp [recordedAt, hpath]
    simp only [hrecorded, changeNode, List.foldlM_cons, bind_eq_ok_iff, pure_eq_ok_iff]
    exact ⟨new.tree, ⟨new, hnew, rfl⟩, hu⟩
  · have hrecorded : recordedAt (first :: rest) ([] ++ below) =
        recordedAt rest ([] ++ below) := by
      rw [recordedAt, List.filter_cons_of_neg (by simpa using hpath)]
      rfl
    rw [hrecorded]
    exact changeNode_ok hothers _

theorem rewrite_ok_of_total {root : Tree} (h : ∀ edit ∈ edits, IsTotal edit) :
    ∃ t, rewrite edits root = .ok t :=
  rewriteAt_ok root fun _ _ _ _ _ _ =>
    changeNode_ok (fun edit hedit => h edit (List.mem_filter.mp hedit).1) _

end Edit

/-! ## All documents together -/

variable {project : Project} {edits : List Edit}

theorem mem_documents {id : DocumentId} : id ∈ Edit.documents edits ↔ ∃ e ∈ edits, e.document = id := by
  simp [Edit.documents, List.mem_eraseDups]

theorem editedTree_eq_ok {cancelled : Bool} {id : DocumentId} {edited : DocumentId × Tree}
    (h : editedTree project edits cancelled id = .ok edited) :
    ∃ doc ∈ project.documents, doc.id = id ∧ edited.1 = id ∧
      Edit.applyToTree (Edit.ofDocument edits id) doc.parsed.tree = .ok edited.2 := by
  obtain ⟨-, -, h⟩ := bind_eq_ok_iff.mp h
  split at h
  · cases h
  · next doc hdoc =>
    obtain ⟨hmem, hid⟩ := Project.mem_of_document? hdoc
    split at h
    · next tree htree =>
      obtain rfl := Except.ok.inj h
      exact ⟨doc, hmem, hid, rfl, htree⟩
    · cases h

/-- Edits change the texts of the documents they are recorded for, and nothing
else of a project. -/
theorem applyEdits_eq_ok {cancelled : Bool} {next : Project}
    (h : applyEdits project edits cancelled = .ok next) :
    next.nextId = project.nextId ∧ List.Forall₂ (fun old new =>
      Edit.ofDocument edits old.id = [] ∧ new = old ∨ Edit.ofDocument edits old.id ≠ [] ∧
        ∃ root, Edit.applyToTree (Edit.ofDocument edits old.id) old.parsed.tree = .ok root ∧
          new = old.withText root.text) project.documents next.documents := by
  obtain ⟨roots, hroots, h⟩ := bind_eq_ok_iff.mp h
  obtain ⟨-, -, h⟩ := bind_eq_ok_iff.mp h
  have hmade := mapM_eq_ok_iff.mp hroots
  split at h
  case h_2 => cases h
  case h_1 result hresult =>
    obtain rfl := Except.ok.inj h
    obtain ⟨hnext, hdocs⟩ := Project.withTexts_eq_ok hresult
    refine ⟨hnext, List.Forall₂.imp ?_ (List.forall₂_and_left _ _ |>.mpr ⟨fun _ h => h, hdocs⟩)⟩
    rintro old new ⟨hold, ⟨hnone, rfl⟩ | ⟨text, htext, rfl⟩⟩
    · refine .inl ⟨List.filter_eq_nil_iff.mpr fun edit hedit hid => ?_, rfl⟩
      obtain ⟨edited, hedited, htree⟩ :=
        exists_left_of_mem hmade.flip (mem_documents.mpr ⟨edit, hedit, beq_iff_eq.mp hid⟩)
      obtain ⟨-, -, -, hsame, -⟩ := editedTree_eq_ok htree
      exact hnone _ (List.mem_map_of_mem hedited) hsame
    · obtain ⟨edited, hedited, heq⟩ := List.mem_map.mp htext
      obtain ⟨id, hdocument, htree⟩ := exists_left_of_mem hmade hedited
      obtain ⟨doc, hdoc, rfl, hid, hroot⟩ := editedTree_eq_ok htree
      obtain ⟨hsame, rfl⟩ := Prod.mk.inj heq
      obtain rfl := Project.eq_of_id_eq hdoc hold (hid.symm.trans hsame)
      obtain ⟨edit, hedit, hedited⟩ := mem_documents.mp hdocument
      have hrecorded : edit ∈ Edit.ofDocument edits doc.id :=
        List.mem_filter.mpr ⟨hedit, beq_iff_eq.mpr hedited⟩
      exact .inr ⟨List.ne_nil_of_mem hrecorded, _, hroot, rfl⟩

/-- The edits of a document have their targets in its tree. -/
theorem captured_ofDocument (hknown : ∀ edit ∈ edits, ∃ doc ∈ project.documents,
      doc.id = edit.document ∧ ∃ c ∈ doc.root.nodes, edit.target = Tag.of c) {doc : Document}
    (hdoc : doc ∈ project.documents) :
    Edit.CapturedFrom doc.parsed.tree (Edit.ofDocument edits doc.id) := by
  intro edit hedit
  obtain ⟨hedit, hid⟩ := List.mem_filter.mp hedit
  obtain ⟨found, hfound, heq, c, hc, htarget⟩ := hknown edit hedit
  obtain rfl := Project.eq_of_id_eq hfound hdoc (heq.trans (beq_iff_eq.mp hid))
  exact ⟨c, hc, htarget⟩

/-- Edits with targets in known documents can be made if the rewrite of each
document succeeds. -/
theorem applyEdits_ok (hknown : ∀ edit ∈ edits, ∃ doc ∈ project.documents, doc.id = edit.document ∧
      ∃ c ∈ doc.root.nodes, edit.target = Tag.of c)
    (hrewrite : ∀ doc ∈ project.documents,
      ∃ t, Edit.rewrite (Edit.ofDocument edits doc.id) doc.parsed.tree = .ok t) :
    ∃ next, applyEdits project edits false = .ok next := by
  have hknownId : ∀ id ∈ Edit.documents edits, ∃ doc ∈ project.documents, doc.id = id := by
    intro id hid
    obtain ⟨edit, hedit, rfl⟩ := mem_documents.mp hid
    obtain ⟨doc, hdoc, heq, -⟩ := hknown edit hedit
    exact ⟨doc, hdoc, heq⟩
  have htree : ∀ id ∈ Edit.documents edits,
      ∃ edited, editedTree project edits false id = .ok edited := by
    intro id hid
    obtain ⟨doc, hdoc, rfl⟩ := hknownId id hid
    obtain ⟨t, ht⟩ := hrewrite doc hdoc
    have hcaptured := captured_ofDocument hknown hdoc
    refine ⟨(doc.id, t), ?_⟩
    simp [editedTree, orCancelled, checkpoint, Project.document?_of_mem hdoc,
      (Edit.applyToTree_ok_iff_rewrite hcaptured t).mpr ht]
  obtain ⟨roots, hroots⟩ := exists_mapM_ok htree
  have hids : ∀ edited ∈ roots, edited.1 ∈ Edit.documents edits := by
    intro edited hmem
    obtain ⟨id, hid, hedited⟩ := exists_left_of_mem (mapM_eq_ok_iff.mp hroots) hmem
    obtain ⟨-, -, -, rfl, -⟩ := editedTree_eq_ok hedited
    exact hid
  have hwith : ∃ next, project.withRoots roots = .ok next := by
    refine Project.withTexts_ok fun entry hentry => ?_
    obtain ⟨edited, hedited, rfl⟩ := List.mem_map.mp hentry
    exact hknownId edited.1 (hids edited hedited)
  obtain ⟨next, hnext⟩ := hwith
  refine ⟨next, ?_⟩
  refine bind_eq_ok_iff.mpr ⟨roots, hroots, bind_eq_ok_iff.mpr ⟨(), rfl, ?_⟩⟩
  rw [hnext]

/-- A document with the tree that its edits make of it. -/
def Edit.rewritten (edits : List Edit) (doc : Document) : Document :=
  if (ofDocument edits doc.id).isEmpty then doc
  else
    match rewrite (ofDocument edits doc.id) doc.parsed.tree with
    | .ok tree => doc.withText tree.text
    | .error _ => doc

theorem Edit.id_rewritten (edits : List Edit) (doc : Document) : (rewritten edits doc).id = doc.id := by
  unfold rewritten
  split
  · rfl
  · split <;> rfl

/-- A project with all its documents rewritten. -/
def Edit.rewrittenProject (edits : List Edit) (project : Project) : Project where
  documents := project.documents.map (rewritten edits)
  nextId := project.nextId
  ids_sorted := by
    simp only [List.map_map, Function.comp_def, id_rewritten]
    exact project.ids_sorted
  ids_below := by
    intro doc hdoc
    obtain ⟨old, hold, rfl⟩ := List.mem_map.mp hdoc
    rw [id_rewritten]
    exact project.ids_below old hold

/-- A document with the tree that its edits make of it, in its quick form. -/
def Edit.quickRewritten (edits : List Edit) (doc : Document) : Document :=
  if (ofDocument edits doc.id).isEmpty then doc
  else
    match rewrite (ofDocument edits doc.id) doc.parsed.tree with
    | .ok tree => doc.quickWithTree tree
    | .error _ => doc

theorem Edit.quickRewritten_eq (edits : List Edit) (doc : Document) :
    quickRewritten edits doc = rewritten edits doc := by
  simp only [quickRewritten, rewritten, Document.quickWithTree_eq]

theorem Edit.map_quickRewritten (edits : List Edit) (docs : List Document) :
    docs.map (quickRewritten edits) = docs.map (rewritten edits) :=
  List.map_congr_left fun doc _ => quickRewritten_eq edits doc

/-- A project with all its documents rewritten, in their quick forms. -/
def Edit.quickRewrittenProject (edits : List Edit) (project : Project) : Project where
  documents := project.documents.map (quickRewritten edits)
  nextId := project.nextId
  ids_sorted := by
    rw [map_quickRewritten]
    exact (rewrittenProject edits project).ids_sorted
  ids_below := by
    rw [map_quickRewritten]
    exact (rewrittenProject edits project).ids_below

theorem Edit.quickRewrittenProject_eq (edits : List Edit) (project : Project) :
    quickRewrittenProject edits project = rewrittenProject edits project := by
  simp only [quickRewrittenProject, rewrittenProject, map_quickRewritten]

/-- Edits that can be made rewrite the documents of a project. -/
theorem applyEdits_eq_rewritten (hknown : ∀ edit ∈ edits, ∃ doc ∈ project.documents,
      doc.id = edit.document ∧ ∃ c ∈ doc.root.nodes, edit.target = Tag.of c)
    (hrewrite : ∀ doc ∈ project.documents,
      ∃ t, Edit.rewrite (Edit.ofDocument edits doc.id) doc.parsed.tree = .ok t) :
    applyEdits project edits false = .ok (Edit.rewrittenProject edits project) := by
  obtain ⟨next, hnext⟩ := applyEdits_ok hknown hrewrite
  obtain ⟨hnextId, hdocs⟩ := applyEdits_eq_ok hnext
  have hall : List.Forall₂ (fun old new => Edit.rewritten edits old = new) project.documents
      next.documents := by
    refine List.Forall₂.imp ?_ (List.forall₂_and_left _ _ |>.mpr ⟨fun _ h => h, hdocs⟩)
    rintro old new ⟨hold, ⟨hnone, rfl⟩ | ⟨hsome, root, hroot, rfl⟩⟩
    · simp [Edit.rewritten, hnone]
    · rw [Edit.applyToTree_ok_iff_rewrite (captured_ofDocument hknown hold)] at hroot
      simp [Edit.rewritten, hsome, hroot]
  have hdocuments : project.documents.map (Edit.rewritten edits) = next.documents := by
    rw [← List.forall₂_eq_eq_eq]
    exact List.forall₂_map_left_iff.mpr hall
  obtain ⟨documents, nextId, _, _⟩ := next
  obtain rfl : nextId = project.nextId := hnextId
  obtain rfl : project.documents.map (Edit.rewritten edits) = documents := hdocuments
  exact hnext

/-! ## The edits of an offer -/

/-- The error for a type whose spelling cannot be read. -/
def IsSynthesis (e : RefactorError) : Prop := ∃ text, e = .synthesis text

theorem failsWith_parseType (text : String) :
    FailsWith IsSynthesis ((parseType text).mapError fun _ => RefactorError.synthesis text) := by
  cases parseType text with
  | ok node => exact FailsWith.ok _
  | error errors => exact FailsWith.error ⟨text, rfl⟩

theorem failsWith_delegateDeclaration (m : Model) (shape : DelegateShape) (name : String)
    (at_ : Cursor) : FailsWith IsSynthesis (delegateDeclaration m shape name at_) := by
  have parameters (returnType : Node) : FailsWith IsSynthesis (do
      let parameters ← shape.parameters.mapM fun p => do
        return (Build.parameter (← typeSyntax m p.ty at_) p.name).tree
      return Build.delegateDeclaration returnType name parameters) := by
    refine FailsWith.bind (FailsWith.mapM fun p _ => ?_) fun _ _ => FailsWith.ok _
    exact (failsWith_parseType _).bind fun type _ => FailsWith.ok _
  unfold delegateDeclaration
  dsimp only
  split
  · exact (failsWith_parseType _).bind fun returnType _ => parameters returnType
  · exact parameters Build.voidType

theorem declarationEdits_eq_ok {m : Model} {doc : Document} {target : OfferTarget} {name : String}
    {own : List Edit} (h : declarationEdits m doc target name = .ok own) :
    ∃ declaration, delegateDeclaration m target.shape name target.method = .ok declaration ∧ own = [
      ⟨doc.id, Tag.of target.declaration, NodeChange.insert target.method.index
        [declaration, .token .whitespace (memberSeparator doc.text target.method.start)]⟩,
      ⟨doc.id, Tag.of target.written, NodeChange.replaceWith (Build.identifierName name)⟩] := by
  obtain ⟨declaration, hdeclaration, h⟩ := bind_eq_ok_iff.mp h
  exact ⟨declaration, hdeclaration, (Except.ok.inj h).symm⟩

variable {s : SymbolTable} {document : DocumentId} {owner : TypeId} {name : String}

theorem failsWith_forwarderEdit {site : Origin} {doc : Document} {param written : Cursor}
    (h : TypedAt project site doc param written) :
    FailsWith IsSynthesis (forwarderEdit s project document owner name site) := by
  unfold forwarderEdit
  simp only [h.nodeAt?_eq, h.kind, h.written_eq, Option.filter, beq_self_eq_true, if_true,
    Option.bind_some]
  split
  · exact FailsWith.ok _
  · exact (failsWith_parseType _).bind fun new _ => FailsWith.ok _

/-- The edit of a forwarded parameter replaces its written type. -/
theorem forwarderEdit_eq_ok {site : Origin} {doc : Document} {param written : Cursor} {edit : Edit}
    (h : TypedAt project site doc param written)
    (hedit : forwarderEdit s project document owner name site = .ok edit) :
    ∃ new, edit = ⟨doc.id, Tag.of written, NodeChange.replaceWith new⟩ ∧
      if doc.id = document then new = Build.identifierName name
      else parseType s!"{Model.spelling ⟨s, doc.id⟩ (.plain owner) written}.{name}" = .ok new := by
  have hdocument : site.document = doc.id := by rw [h.site_eq]
  unfold forwarderEdit at hedit
  simp only [h.nodeAt?_eq, h.kind, h.written_eq, Option.filter, beq_self_eq_true, if_true,
    Option.bind_some, hdocument] at hedit
  split at hedit
  · next hsame => exact ⟨_, (Except.ok.inj hedit).symm, by rw [if_pos hsame]⟩
  · next hother =>
    obtain ⟨new, hnew, hedit⟩ := bind_eq_ok_iff.mp hedit
    refine ⟨new, (Except.ok.inj hedit).symm, ?_⟩
    rw [if_neg hother]
    cases hparse : parseType s!"{Model.spelling ⟨s, doc.id⟩ (.plain owner) written}.{name}" with
    | error errors => rw [hparse] at hnew; cases hnew
    | ok node =>
        rw [hparse] at hnew
        exact congrArg Except.ok (Except.ok.inj (show (.ok node : Except RefactorError Node) = _ from hnew))

/-- The target of an offer as it is found again, and the places of the parameters
that are passed on to it. -/
structure Aim (project : Project) (doc : Document) (param : Cursor) (target : OfferTarget)
    (sites : List Origin) : Prop where
  doc_mem : doc ∈ project.documents
  find?_eq : OfferTarget.find? ⟨.ofProject project, doc.id⟩ doc.root target.symbol.node = some target
  below : Below doc.root param
  isNode : param.isNode = true
  kind : param.kind = .parameter
  name_eq : param.name? = some target.symbol.name
  node_eq : target.symbol.node = Pointer.of param
  method_eq : methodOf? param = some target.method
  written_eq : param.type? = some target.written
  declaration_below : Below doc.root target.declaration
  method_mem : target.method ∈ target.declaration.children
  declares : target.declaration.kind.isTypeDeclaration = true
  sites_eq : findForwarders (.ofProject project) project doc.id target.symbol false = .ok sites
  sites_nodup : sites.Nodup
  sites_typed : ∀ site ∈ sites, site ≠ ⟨doc.id, target.symbol.node⟩ ∧
    ∃ doc param written, TypedAt project site doc param written

/-- The offer for a target. -/
def DelegateOffer.of (doc : Document) (target : OfferTarget) : DelegateOffer :=
  ⟨doc.id, target.symbol.node, Refactor.delegateName target.symbol.name, target.shape, doc.text⟩

/-- Whatever is offered has a target that is found again. -/
theorem aim_of_offerAt {span : Span} {cancelled : Bool} {offer : DelegateOffer}
    (h : offerAt project document span cancelled = .ok (some offer)) :
    ∃ doc param target sites, Aim project doc param target sites ∧
      project.document? document = some doc ∧ offer = .of doc target := by
  obtain ⟨doc, param, method, symbol, shape, hoffered, hdoc, -, rfl⟩ := offerAt_eq_some h
  obtain ⟨target, hfind, rfl, rfl, rfl, hwritten, hbelow, hmember, htype⟩ := hoffered.find?_eq
  obtain ⟨id, info, howner, -, hinfo⟩ := hoffered.owner_eq
  obtain ⟨sites, hsites, hnodup, htyped⟩ := findForwarders_ok doc.id howner hinfo
  refine ⟨doc, param, target, sites, ?_, hdoc, rfl⟩
  have hname := (Model.declaredParameter?_eq_some hoffered.symbol_eq.1).1
  exact ⟨hoffered.doc_mem, hfind, hoffered.below, hoffered.isNode, hoffered.kind, hname,
    hoffered.resolve.1, hoffered.method_eq, hwritten, hbelow, hmember, htype, hsites, hnodup, htyped⟩

/-- The edit of a place of a parameter that is passed on to a target: its written
type is replaced by the delegate, which has its full name in another document. -/
def IsForwarderEdit (project : Project) (doc : Document) (target : OfferTarget) (site : Origin)
    (edit : Edit) : Prop :=
  ∃ doc' param written new, TypedAt project site doc' param written ∧
    edit = ⟨doc'.id, Tag.of written, NodeChange.replaceWith new⟩ ∧
    if doc'.id = doc.id then new = Build.identifierName (delegateName target.symbol.name)
    else
      let container := Model.spelling ⟨.ofProject project, doc'.id⟩ (.plain target.owner) written
      parseType s!"{container}.{delegateName target.symbol.name}" = .ok new

namespace Aim

variable {doc : Document} {param : Cursor} {target : OfferTarget} {sites : List Origin}
  (h : Aim project doc param target sites)
include h

/-- The edits of an offer are those of its declaration and those of its sites. -/
theorem offerEdits_eq : offerEdits project (.of doc target) false = (do
    let own ← declarationEdits ⟨.ofProject project, doc.id⟩ doc target
      (delegateName target.symbol.name)
    let others ← sites.mapM (forwarderEdit (.ofProject project) project doc.id target.owner
      (delegateName target.symbol.name))
    return own ++ others) := by
  simp only [offerEdits, DelegateOffer.of, Project.document?_of_mem h.doc_mem, ne_eq,
    not_true_eq_false, if_false, h.find?_eq, h.sites_eq]
  rfl

theorem failsWith_offerEdits : FailsWith IsSynthesis (offerEdits project (.of doc target) false) := by
  rw [h.offerEdits_eq]
  refine FailsWith.bind ?_ fun own _ => FailsWith.bind ?_ fun others _ => FailsWith.ok _
  · exact FailsWith.bind (failsWith_delegateDeclaration _ _ _ _) fun _ _ => FailsWith.ok _
  · refine FailsWith.mapM fun site hsite => ?_
    obtain ⟨-, doc', param', written, htyped⟩ := h.sites_typed site hsite
    exact failsWith_forwarderEdit htyped

/-- The edits of an offer: the first one puts a declaration before a method, all
others replace a written type. -/
theorem offerEdits_eq_ok {edits : List Edit}
    (hedits : offerEdits project (.of doc target) false = .ok edits) :
    ∃ declaration others, delegateDeclaration ⟨.ofProject project, doc.id⟩ target.shape
        (delegateName target.symbol.name) target.method = .ok declaration ∧
      edits = ⟨doc.id, Tag.of target.declaration, NodeChange.insert target.method.index
          [declaration, .token .whitespace (memberSeparator doc.text target.method.start)]⟩ ::
        ⟨doc.id, Tag.of target.written,
          NodeChange.replaceWith (Build.identifierName (delegateName target.symbol.name))⟩ :: others ∧
      List.Forall₂ (IsForwarderEdit project doc target) sites others := by
  rw [h.offerEdits_eq] at hedits
  obtain ⟨own, hown, hedits⟩ := bind_eq_ok_iff.mp hedits
  obtain ⟨others, hothers, hedits⟩ := bind_eq_ok_iff.mp hedits
  obtain rfl := Except.ok.inj hedits
  obtain ⟨declaration, hdeclaration, rfl⟩ := declarationEdits_eq_ok hown
  refine ⟨declaration, others, hdeclaration, rfl, ?_⟩
  have hall := (List.forall₂_and_left _ _).mpr ⟨h.sites_typed, mapM_eq_ok_iff.mp hothers⟩
  refine hall.imp ?_
  rintro site edit ⟨⟨-, doc', param', written, htyped⟩, hedit⟩
  obtain ⟨new, rfl, hnew⟩ := forwarderEdit_eq_ok htyped hedit
  exact ⟨doc', param', written, new, htyped, rfl, hnew⟩

/-- The target of an edit of an offer is a node of a document. -/
theorem captured {edits : List Edit}
    (hedits : offerEdits project (.of doc target) false = .ok edits) :
    ∀ edit ∈ edits, ∃ doc ∈ project.documents, doc.id = edit.document ∧
      ∃ c ∈ doc.root.nodes, edit.target = Tag.of c := by
  obtain ⟨declaration, others, -, rfl, hothers⟩ := h.offerEdits_eq_ok hedits
  intro edit hedit
  rcases List.mem_cons.mp hedit with rfl | hedit
  · have hnode := isNode_of_mem_elements (mem_elements_of_mem_children h.method_mem)
    exact ⟨doc, h.doc_mem, rfl, _, h.declaration_below.mem_nodes hnode, rfl⟩
  rcases List.mem_cons.mp hedit with rfl | hedit
  · have hchild := (mem_children_of_childOf? h.written_eq).1
    have hbelow := h.below.trans (below_of_mem_children hchild)
    exact ⟨doc, h.doc_mem, rfl, _, hbelow.mem_nodes (isNode_of_mem_children hchild), rfl⟩
  · obtain ⟨site, -, doc', param', written, new, htyped, rfl, -⟩ := exists_left_of_mem hothers hedit
    have hchild := (mem_children_of_childOf? htyped.written_eq).1
    have hbelow := htyped.below.trans (below_of_mem_children hchild)
    exact ⟨doc', htyped.doc_mem, rfl, _, hbelow.mem_nodes (isNode_of_mem_children hchild), rfl⟩

/-- In every document the changes of an offer can be made. -/
theorem exists_rewrite {edits : List Edit}
    (hedits : offerEdits project (.of doc target) false = .ok edits) {other : Document}
    (hother : other ∈ project.documents) :
    ∃ t, Edit.rewrite (Edit.ofDocument edits other.id) other.parsed.tree = .ok t := by
  obtain ⟨declaration, others, -, rfl, hothers⟩ := h.offerEdits_eq_ok hedits
  have htotal : ∀ edit ∈ Edit.ofDocument (⟨doc.id, Tag.of target.written,
      NodeChange.replaceWith (Build.identifierName (delegateName target.symbol.name))⟩ :: others)
        other.id, Edit.IsTotal edit := by
    intro edit hedit
    rcases List.mem_cons.mp (List.mem_filter.mp hedit).1 with rfl | hedit
    · exact Edit.isTotal_replaceWith _ _ _
    · obtain ⟨site, -, doc', param', written, new, -, rfl, -⟩ := exists_left_of_mem hothers hedit
      exact Edit.isTotal_replaceWith _ _ _
  by_cases hsame : other.id = doc.id
  · obtain rfl := Project.eq_of_id_eq hother h.doc_mem hsame
    rw [Edit.ofDocument, List.filter_cons_of_pos (by simp)]
    refine Edit.rewrite_ok (fun k cs us hnode hlen => ?_) htotal
    -- The place of the method is one among the children of its declaration.
    have hmethod := mem_elements_of_mem_children h.method_mem
    have hchildren : cs = target.declaration.focus.children := by
      have hfocus := (Cursor.root other.parsed.tree).focus_at? target.declaration.path
      rw [at?_root_of_mem_nodes (h.declaration_below.mem_nodes (isNode_of_mem_elements hmethod))]
        at hfocus
      have hfound : some target.declaration.focus = some (.node k cs) := hfocus.trans hnode
      rw [Option.some.inj hfound]
      rfl
    have hindex : target.method.index < us.length := by
      rw [hlen, hchildren]
      exact (List.getElem?_eq_some_iff.mp (getElem?_of_mem_elements hmethod)).1
    exact ⟨_, NodeChange.insert_node (Nat.le_of_lt hindex)⟩
  · rw [Edit.ofDocument, List.filter_cons_of_neg (by simpa using fun heq => hsame heq.symm)]
    exact Edit.rewrite_ok_of_total htotal

/-- To apply an offer is to rewrite the documents by its edits. -/
theorem applyOffer_eq : applyOffer project (.of doc target) false = (do
    return Edit.rewrittenProject (← offerEdits project (.of doc target) false) project) := by
  show (do applyEdits project (← offerEdits project (.of doc target) false) false) = _
  cases hedits : offerEdits project (.of doc target) false with
  | error e => rfl
  | ok edits =>
      exact applyEdits_eq_rewritten (h.captured hedits) fun other hother =>
        h.exists_rewrite hedits hother

theorem failsWith_applyOffer : FailsWith IsSynthesis (applyOffer project (.of doc target) false) := by
  rw [h.applyOffer_eq]
  exact FailsWith.bind h.failsWith_offerEdits fun edits _ => FailsWith.ok _

end Aim

/-- The offer at a selection, with what the project becomes if it is applied, both in their
quick forms. -/
def afterOffer? (project : Project) (document : DocumentId) (span : Span) :
    Option (DelegateOffer × Project) := do
  let offer ← (offerAt project.quick document span false).toOption.join
  let edits ← (offerEdits project.quick offer false).toOption
  return (offer, Edit.quickRewrittenProject edits project.quick)

/-- What is computed of a project, an offer and its result holds of them. -/
theorem exists_of_afterOffer? (project : Project) (document : DocumentId) (span : Span)
    (check : Project → DelegateOffer → Project → Bool)
    (h : ((afterOffer? project document span).any fun r => check project.quick r.1 r.2) = true) :
    ∃ offer next, offerAt project document span false = .ok (some offer) ∧
      applyOffer project offer false = .ok next ∧ check project offer next = true := by
  obtain ⟨⟨offer, next⟩, hafter, hcheck⟩ := (Option.any_eq_true _ _).mp h
  rw [Project.quick_eq] at hcheck
  simp only [afterOffer?, Project.quick_eq, Edit.quickRewrittenProject_eq] at hafter
  obtain ⟨found, hfound, hafter⟩ := Option.bind_eq_some_iff.mp hafter
  obtain ⟨edits, hedits, hafter⟩ := Option.bind_eq_some_iff.mp hafter
  obtain ⟨rfl, rfl⟩ := Prod.mk.inj (Option.some.inj hafter)
  have hoffer : offerAt project document span false = .ok (some found) :=
    toOption_eq_some_iff.mp (Option.join_eq_some_iff.mp hfound)
  obtain ⟨doc, param, target, sites, haim, -, rfl⟩ := aim_of_offerAt hoffer
  refine ⟨_, _, hoffer, ?_, hcheck⟩
  rw [haim.applyOffer_eq, toOption_eq_some_iff.mp hedits]
  rfl

/-- **Offers can be applied.** Whatever the project, an offer that was computed on
it can be applied to it, or a type that the delegate needs cannot be written as
syntax. None of the other errors comes out of it: the offer is not stale, the
parameter is found again, every call that is looked at is a call and has an
argument for the parameter or may do without, and no edit fails. -/
theorem applyOffer_ok_or_synthesis (project : Project) (document : DocumentId) (span : Span)
    (offer : DelegateOffer) (h : offerAt project document span false = .ok (some offer)) :
    (∃ next, applyOffer project offer false = .ok next) ∨
      ∃ text, applyOffer project offer false = .error (.synthesis text) := by
  obtain ⟨doc, param, target, sites, haim, -, rfl⟩ := aim_of_offerAt h
  cases happly : applyOffer project (.of doc target) false with
  | ok next => exact .inl ⟨next, rfl⟩
  | error e =>
      obtain ⟨text, rfl⟩ := haim.failsWith_applyOffer e happly
      exact .inr ⟨text, rfl⟩

/-- A project with one document, whose method takes an `Action`. -/
def callbackProject : Project :=
  Project.empty.append
    (Document.read 0 "callback.cs" "using System; class C { void M(Action<int> a) { } }" 0) rfl

theorem applyOffer_ok_or_synthesis_callback :
    ∃ offer, offerAt callbackProject 0 ⟨31, 13⟩ false = .ok (some offer) ∧
      ((∃ next, applyOffer callbackProject offer false = .ok next) ∨
        ∃ text, applyOffer callbackProject offer false = .error (.synthesis text)) := by
  have hsome : (offerAt callbackProject.quick 0 ⟨31, 13⟩ false).toOption.join.isSome = true := by
    decide +kernel
  rw [Project.quick_eq] at hsome
  cases hoffer : offerAt callbackProject 0 ⟨31, 13⟩ false with
  | error e =>
      rw [hoffer] at hsome
      cases hsome
  | ok found =>
      cases found with
      | none =>
          rw [hoffer] at hsome
          cases hsome
      | some offer => exact ⟨offer, rfl, applyOffer_ok_or_synthesis _ _ _ _ hoffer⟩

end CSharpKit.Refactor
