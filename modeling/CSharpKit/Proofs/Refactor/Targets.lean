import CSharpKit.Proofs.Semantics.Arguments
import CSharpKit.Proofs.Semantics.Callers
import CSharpKit.Refactor.CustomDelegate

/-!
# What an offer aims at

An offer is found at a parameter, and when it is applied the parameter is found
again by its pointer. The same holds of the parameters of callers that are passed
on. All of them have a written type.
-/

namespace CSharpKit.Refactor

open Syntax Text Workspace Semantics Cursor Outcome Declare

variable {project : Project}

/-! ## The offered parameter -/

theorem below_of_nodeAtSpan? {t : Tree} {span : Span} {node : Cursor}
    (h : nodeAtSpan? (.root t) span = some node) :
    Below (.root t) node ∧ node.isNode = true := by
  obtain ⟨covering, hcovering, h⟩ := Option.bind_eq_some_iff.mp h
  have hbelow : Below (.root t) covering := by
    unfold cover? at hcovering
    split at hcovering
    · obtain rfl := Option.some.inj hcovering
      exact below_coverFrom _ _
    · cases hcovering
  have climbed {inner : Cursor} (hinner : Below (.root t) inner) (hnode : inner.isNode = true)
      (h : (inner.ancestors.takeWhile fun a => a.span == inner.span).getLast? = some node) :
      Below (.root t) node ∧ node.isNode = true := by
    have hmem := (List.takeWhile_sublist _).subset (List.mem_of_getLast? h)
    obtain ⟨hroot, hup⟩ := hinner.of_mem_ancestors rfl hmem
    exact ⟨hroot, isNode_of_below hup hnode⟩
  dsimp only at h
  split at h
  · next hnode => exact climbed hbelow hnode h
  · obtain ⟨inner, hinner, h⟩ := Option.bind_eq_some_iff.mp h
    obtain ⟨hup, hmem⟩ := hbelow.of_parent? rfl hinner
    exact climbed hup (isNode_of_mem_elements hmem) h

/-- What is known of the parameter that an offer was made for. -/
structure Offered (project : Project) (doc : Document) (param method : Cursor)
    (symbol : ParameterSymbol) (shape : DelegateShape) : Prop where
  doc_mem : doc ∈ project.documents
  below : Below doc.root param
  isNode : param.isNode = true
  kind : param.kind = .parameter
  method_eq : methodOf? param = some method
  shape_eq : shapeOf? ⟨.ofProject project, doc.id⟩ param = some (symbol, shape)

theorem offerAt_eq_some {document : DocumentId} {span : Span} {cancelled : Bool}
    {offer : DelegateOffer} (h : offerAt project document span cancelled = .ok (some offer)) :
    ∃ doc param method symbol shape, Offered project doc param method symbol shape ∧
      project.document? document = some doc ∧ nodeAtSpan? doc.root span = some param ∧
      offer = ⟨doc.id, symbol.node, delegateName symbol.name, shape, doc.text⟩ := by
  obtain ⟨-, -, h⟩ := bind_eq_ok_iff.mp h
  obtain ⟨doc, hdoc, h⟩ := Option.bind_eq_some_iff.mp (pure_eq_ok_iff.mp h)
  obtain ⟨hmem, rfl⟩ := Project.mem_of_document? hdoc
  obtain ⟨param, hparam, h⟩ := Option.bind_eq_some_iff.mp h
  obtain ⟨hnode, hkind⟩ := Option.filter_eq_some_iff.mp hparam
  obtain ⟨hbelow, hisNode⟩ := below_of_nodeAtSpan? hnode
  obtain ⟨method, hmethod, h⟩ := Option.bind_eq_some_iff.mp h
  obtain ⟨⟨symbol, shape⟩, hshape, h⟩ := Option.bind_eq_some_iff.mp h
  obtain rfl := Option.some.inj h
  exact ⟨doc, param, method, symbol, shape,
    ⟨hmem, hbelow, hisNode, beq_iff_eq.mp hkind, hmethod, hshape⟩, hdoc, hnode, rfl⟩

/-- The method of a parameter is above its list. -/
theorem methodOf?_eq_some {param method : Cursor} (h : methodOf? param = some method) :
    ∃ list, param.parent? = some list ∧ list.kind = .parameterList ∧
      list.parent? = some method ∧ method.kind = .methodDeclaration := by
  obtain ⟨list, hlist, h⟩ := Option.bind_eq_some_iff.mp h
  obtain ⟨hparent, hlistKind⟩ := Option.filter_eq_some_iff.mp hlist
  obtain ⟨hup, hkind⟩ := Option.filter_eq_some_iff.mp h
  exact ⟨list, hparent, beq_iff_eq.mp hlistKind, hup, beq_iff_eq.mp hkind⟩

namespace Offered

variable {doc : Document} {param method : Cursor} {symbol : ParameterSymbol}
  {shape : DelegateShape} (h : Offered project doc param method symbol shape)
include h

theorem symbol_eq : (Model.mk (.ofProject project) doc.id).declaredParameter? param = some symbol ∧
    ∃ written, param.type? = some written := by
  obtain ⟨written, hwritten, hshape⟩ := Option.bind_eq_some_iff.mp h.shape_eq
  obtain ⟨symbol', hsymbol, hshape⟩ := Option.bind_eq_some_iff.mp hshape
  obtain ⟨shape', -, hshape⟩ := Option.bind_eq_some_iff.mp hshape
  obtain ⟨rfl, -⟩ := Prod.mk.inj (Option.some.inj hshape)
  exact ⟨hsymbol, written, hwritten⟩

/-- The symbol of the parameter belongs to its method, which is declared. -/
theorem owner_eq : ∃ id info, symbol.owner = .method id ∧
    (Model.mk (.ofProject project) doc.id).declaredMethod? method = some id ∧
    ((SymbolTable.ofProject project).method id).params[symbol.ordinal]? = some info := by
  obtain ⟨-, -, place, hplace, howner⟩ := Model.declaredParameter?_eq_some h.symbol_eq.1
  obtain ⟨list, hlist, hlistKind, hup, hkind⟩ := methodOf?_eq_some h.method_eq
  obtain ⟨parent, hparent, hcases⟩ := Model.parameterPlace?_eq_some hplace
  obtain rfl : parent = list := Option.some.inj (hparent.symm.trans hlist)
  rcases hcases with ⟨-, hplace⟩ | ⟨hlambda, -⟩
  · obtain rfl : place = method := Option.some.inj (hplace.symm.trans hup)
    unfold Model.parameterOwner? at howner
    rw [hkind] at howner
    obtain ⟨id, hid, howner⟩ := Option.bind_eq_some_iff.mp howner
    obtain ⟨info, hinfo, heq⟩ := Option.map_eq_some_iff.mp howner
    exact ⟨id, info, (Prod.mk.inj heq).1.symm, hid, hinfo⟩
  · simp [hlistKind] at hlambda

theorem method_below : Below doc.root method ∧ method.isNode = true := by
  obtain ⟨list, hlist, -, hup, -⟩ := methodOf?_eq_some h.method_eq
  obtain ⟨hlistBelow, -⟩ := h.below.of_parent? rfl hlist
  obtain ⟨hmethodBelow, hmem⟩ := hlistBelow.of_parent? rfl hup
  exact ⟨hmethodBelow, isNode_of_mem_elements hmem⟩

/-- The pointer of the symbol leads back to the parameter. -/
theorem resolve : symbol.node = Pointer.of param ∧
    symbol.node.resolve doc.root = .ok (some param) := by
  obtain ⟨hname, hnode, -⟩ := Model.declaredParameter?_eq_some h.symbol_eq.1
  refine ⟨hnode, ?_⟩
  rw [hnode]
  exact (isFile_tree doc).resolve_parameter h.below h.isNode h.kind hname

/-- Looking the offer up finds the same parameter, and a declaration around it. -/
theorem find?_eq : ∃ target : OfferTarget,
    OfferTarget.find? ⟨.ofProject project, doc.id⟩ doc.root symbol.node = some target ∧
    target.symbol = symbol ∧ target.shape = shape ∧ target.method = method ∧
    param.type? = some target.written ∧ Below doc.root target.declaration ∧
    target.method ∈ target.declaration.children ∧
    target.declaration.kind.isTypeDeclaration = true := by
  obtain ⟨id, info, -, hid, -⟩ := h.owner_eq
  obtain ⟨hmethodBelow, hmethodNode⟩ := h.method_below
  obtain ⟨list, -, -, -, hkind⟩ := methodOf?_eq_some h.method_eq
  obtain ⟨inType, declaration, owner, hreached, hmethod, htype, howner⟩ :=
    exists_declaredType? h.doc_mem hmethodBelow hmethodNode (.inl hkind) hid
  have hbelow := hreached.below_root
  have hmember := (mem_children_of_mem_childrenOf hmethod).1
  obtain ⟨-, written, hwritten⟩ := h.symbol_eq
  have hup := parent?_of_mem_elements (mem_elements_of_mem_children hmember)
  refine ⟨⟨symbol, shape, written, method, declaration, owner⟩, ?_, rfl, rfl, rfl, hwritten, hbelow,
    hmember, htype⟩
  simp [OfferTarget.find?, h.resolve.2, Except.toOption, h.kind, h.method_eq, hup, htype, howner,
    hwritten, h.shape_eq, Option.filter]

end Offered

/-! ## Forwarded parameters -/

/-- A call that is found is a call of its document, and means the method. -/
theorem call_of_mem_callersIn {s : SymbolTable} {method : MethodId} {doc : Document}
    {site : CallSite} (h : site ∈ callersIn s method doc) :
    ∃ call, Below doc.root call ∧ call.isNode = true ∧ call.kind = .invocationExpression ∧
      (Model.mk s doc.id).invokedMethod? call = some method ∧ site = ⟨doc.id, Pointer.of call⟩ := by
  unfold callersIn at h
  dsimp only at h
  split at h
  · obtain ⟨call, hcall, rfl⟩ := List.mem_map.mp h
    obtain ⟨hnode, hcall⟩ := List.mem_filter.mp hcall
    simp only [Bool.and_eq_true, beq_iff_eq] at hcall
    exact ⟨call, below_of_mem_nodes hnode, (List.mem_filter.mp hnode).2, hcall.1.1, hcall.2, rfl⟩
  · cases h

/-- A place in the sources that leads to a parameter with a type. -/
structure TypedAt (project : Project) (site : Origin) (doc : Document) (param written : Cursor) :
    Prop where
  doc_mem : doc ∈ project.documents
  site_eq : site = ⟨doc.id, Pointer.of param⟩
  below : Below doc.root param
  isNode : param.isNode = true
  kind : param.kind = .parameter
  written_eq : param.type? = some written
  nodeAt?_eq : nodeAt? project site = some param

/-- Looking at a call never fails, and what it passes on is a parameter with a type. -/
theorem forwarder?_ok {s : SymbolTable} {method : MethodId} {ordinal : Nat} {info : ParameterInfo}
    (hinfo : (s.method method).params[ordinal]? = some info) {doc : Document}
    (hdoc : doc ∈ project.documents) {site : CallSite} (hsite : site ∈ callersIn s method doc) :
    ∃ found, forwarder? s project method ordinal site = .ok found ∧
      ∀ origin, found = some origin → ∃ param written, TypedAt project origin doc param written := by
  obtain ⟨call, hbelow, hnode, hkind, hmethod, rfl⟩ := call_of_mem_callersIn hsite
  have hcall : callAt project ⟨doc.id, Pointer.of call⟩ = .ok call := by
    have hresolve := (isFile_tree doc).resolve_invocation hbelow hnode hkind
    simp [callAt, nodeAt?_of_resolve hdoc hresolve, hkind, Option.filter]
  have hforwarded : ∃ found,
      forwardedParameter? ⟨s, doc.id⟩ call method ordinal = .ok found ∧
      ∀ p, found = some p → ∃ param written,
        TypedAt project ⟨doc.id, p.node⟩ doc param written := by
    unfold forwardedParameter?
    split
    · next hnone =>
      have hoptional := Model.optional_of_argumentFor? hmethod hinfo hnone
      refine ⟨none, ?_, by simp⟩
      rw [if_pos]
      rcases hoptional with hdefault | hparams | ⟨a, ha, hempty⟩
      · simp [hinfo, hdefault]
      · simp [hinfo, hparams]
      · have : hasEmptyArgument call = true :=
          List.any_eq_true.mpr ⟨a, ha, by simp [hempty]⟩
        simp [this]
    · next argument hargument =>
      split
      · next p caller hsymbol hcaller =>
        refine ⟨_, rfl, fun p' hp' => ?_⟩
        split at hp'
        · next howner =>
          obtain rfl := Option.some.inj hp'
          have hargumentBelow := (hbelow.trans (Model.below_of_argumentFor? hargument)).trans
            (below_unparenthesized argument)
          obtain ⟨param, hparam, hparamNode, hparamKind, hpointer, hresolve, written, hwritten⟩ :=
            Model.resolve_of_symbolOf? (isFile_tree doc) hargumentBelow hsymbol howner
          exact ⟨param, written, hdoc, by rw [hpointer], hparam, hparamNode, hparamKind, hwritten,
            nodeAt?_of_resolve hdoc hresolve⟩
        · cases hp'
      · exact ⟨none, rfl, by simp⟩
  obtain ⟨found, hfound, htyped⟩ := hforwarded
  refine ⟨found.map fun p => ⟨doc.id, p.node⟩, ?_, fun origin horigin => ?_⟩
  · simp [forwarder?, hcall, hfound]
  · obtain ⟨p, hp, rfl⟩ := Option.map_eq_some_iff.mp horigin
    exact htyped p hp

theorem nodup_eraseDups : ∀ sites : List Origin, sites.eraseDups.Nodup
  | [] => by simp
  | site :: sites => by
      rw [List.eraseDups_cons, List.nodup_cons]
      refine ⟨?_, nodup_eraseDups _⟩
      simp [List.mem_eraseDups]
termination_by sites => sites.length
decreasing_by
  have := List.length_filter_le (fun b => !b == site) sites
  simp only [List.length_cons]
  omega

/-- The search for forwarded parameters does not fail. It lists places of
parameters that have a type, each one once, and not the place it started from. -/
theorem findForwarders_ok (document : DocumentId) {symbol : ParameterSymbol} {method : MethodId}
    {info : ParameterInfo} (howner : symbol.owner = .method method)
    (hinfo : ((SymbolTable.ofProject project).method method).params[symbol.ordinal]? = some info) :
    ∃ sites, findForwarders (.ofProject project) project document symbol false = .ok sites ∧
      sites.Nodup ∧ ∀ site ∈ sites, site ≠ ⟨document, symbol.node⟩ ∧
        ∃ doc param written, TypedAt project site doc param written := by
  let s := SymbolTable.ofProject project
  let callers := project.documents.flatMap (callersIn s method)
  have hcallers : orCancelled (findCallers s project method false) = .ok callers := by
    rw [findCallers_eq]
    rfl
  have hone : ∀ site ∈ callers,
      ∃ found, forwarder? s project method symbol.ordinal site = .ok found := by
    intro site hsite
    obtain ⟨doc, hdoc, hsite⟩ := List.mem_flatMap.mp hsite
    obtain ⟨found, hfound, -⟩ := forwarder?_ok hinfo hdoc hsite
    exact ⟨found, hfound⟩
  obtain ⟨found, hfound⟩ := exists_mapM_ok hone
  refine ⟨((found.filterMap id).filter fun o => o ≠ ⟨document, symbol.node⟩).eraseDups, ?_,
    nodup_eraseDups _, ?_⟩
  · simp only [findForwarders, howner]
    refine bind_eq_ok_iff.mpr ⟨callers, hcallers, bind_eq_ok_iff.mpr ⟨found, hfound, rfl⟩⟩
  · intro site hsite
    obtain ⟨hmem, hne⟩ := List.mem_filter.mp (List.mem_eraseDups.mp hsite)
    obtain ⟨found?, hfound?, hsome⟩ := List.mem_filterMap.mp hmem
    obtain ⟨caller, hcaller, hforwarder⟩ := exists_left_of_mem (mapM_eq_ok_iff.mp hfound) hfound?
    obtain ⟨doc, hdoc, hcaller⟩ := List.mem_flatMap.mp hcaller
    obtain ⟨found', hfound', htyped⟩ := forwarder?_ok hinfo hdoc hcaller
    obtain rfl : found' = found? := Except.ok.inj (hfound'.symm.trans hforwarder)
    obtain ⟨param, written, h⟩ := htyped site hsome
    exact ⟨by simpa using hne, doc, param, written, h⟩

end CSharpKit.Refactor
