import CSharpKit.Proofs.Semantics.Declarations
import Mathlib.Data.List.Flatten
import Mathlib.Data.List.Nodup

/-!
# No node is recorded twice

The first pass walks down each document and records a node when it comes to it.
So the places of the records lie in the order of the walk, without repetition,
and the record at a place is the one that looking the place up finds.
-/

namespace CSharpKit

open Syntax Cursor
open scoped List

/-! ## Walks -/

namespace Syntax.Cursor

theorem filter_preorderRow (p : Cursor) (i pos : Nat) (ts : Forest) :
    (preorderRow p i pos ts).filter isNode = ((row p i pos ts).filter isNode).flatMap nodes := by
  induction ts generalizing i pos with
  | nil => rfl
  | cons t ts ih =>
      rw [preorderRow, row, List.filter_append, ih]
      cases t with
      | token k s => simp [preorderAt, Cursor.isNode, Cursor.focus, Tree.isNode]
      | node k cs =>
          rw [List.filter_cons, if_pos (by simp [Cursor.isNode, Cursor.focus, Tree.isNode]),
            List.flatMap_cons]
          rfl

/-- A walk over a node goes on over its children. -/
theorem nodes_eq {c : Cursor} (h : c.isNode = true) : c.nodes = c :: c.children.flatMap nodes := by
  cases hfocus : c.focus with
  | token k s => simp [Cursor.isNode, hfocus, Tree.isNode] at h
  | node k cs =>
      rw [nodes, preorder, hfocus, preorderAt, List.filter_cons, if_pos h, filter_preorderRow]
      simp [children, elements, hfocus, Tree.children]

theorem nodes_sublist_of_mem_children {c d : Cursor} (hd : d ∈ c.children) :
    d.nodes <+ c.children.flatMap nodes := by
  rw [List.flatMap_def]
  exact List.sublist_flatten_of_mem (List.mem_map_of_mem hd)

/-- Nodes in a row come up in the walk over them. -/
theorem sublist_flatMap_nodes {cs : List Cursor} (h : ∀ c ∈ cs, c.isNode = true) :
    cs <+ cs.flatMap nodes := by
  induction cs with
  | nil => exact List.Sublist.refl _
  | cons c cs ih =>
      obtain ⟨hc, hcs⟩ := List.forall_mem_cons.mp h
      rw [List.flatMap_cons, nodes_eq hc, List.cons_append]
      exact ((ih hcs).trans (List.sublist_append_right _ _)).cons_cons c

end Syntax.Cursor

theorem Workspace.Document.isNode_root (doc : Workspace.Document) : doc.root.isNode = true := by
  obtain ⟨cs, -, htree⟩ := parse_complete doc.text
  rw [Workspace.Document.root, Cursor.isNode, Cursor.focus, doc.parsed_eq, htree]
  rfl

namespace Semantics

open Workspace Declare

def originIn (id : DocumentId) (c : Cursor) : Origin := ⟨id, Pointer.of c⟩

/-! ## The order of records -/

/-- A step makes records, and those for places of a list only, in its order. -/
def Visits {α : Type} (origins : List Origin) (step : TableM α) : Prop :=
  ∀ s, ∃ new, (step.run s).2.decls = new ++ s.decls ∧ new.reverse.map Prod.fst <+ origins

namespace Visits

variable {α β : Type} {origins more : List Origin}

theorem of_decls_eq {step : TableM α} (h : ∀ s, (step.run s).2.decls = s.decls) :
    Visits [] step := fun s => ⟨[], h s, List.nil_sublist _⟩

theorem pure (a : α) : Visits [] (pure a : TableM α) := of_decls_eq fun _ => rfl

theorem record (origin : Origin) (decl : Decl) : Visits [origin] (record origin decl) :=
  fun _ => ⟨[(origin, decl)], rfl, List.Sublist.refl _⟩

theorem mono {step : TableM α} (h : Visits origins step) (hsub : origins <+ more) :
    Visits more step := by
  intro s
  obtain ⟨new, heq, hnew⟩ := h s
  exact ⟨new, heq, hnew.trans hsub⟩

theorem bind {step : TableM α} {next : α → TableM β} (h : Visits origins step)
    (hnext : ∀ a, Visits more (next a)) : Visits (origins ++ more) (step >>= next) := by
  intro s
  obtain ⟨new, heq, hnew⟩ := h s
  obtain ⟨new', heq', hnew'⟩ := hnext (step.run s).1 (step.run s).2
  refine ⟨new' ++ new, ?_, ?_⟩
  · rw [List.append_assoc, ← heq]
    exact heq'
  · rw [List.reverse_append, List.map_append]
    exact hnew.append hnew'

theorem seq {step : TableM α} {next : α → TableM β} (h : Visits [] step)
    (hnext : ∀ a, Visits more (next a)) : Visits more (step >>= next) := h.bind hnext

theorem forIn {l : List α} (visited : α → List Origin)
    {body : α → PUnit → TableM (ForInStep PUnit)} (h : ∀ a ∈ l, Visits (visited a) (body a ⟨⟩)) :
    Visits (l.flatMap visited) (forIn l PUnit.unit body) := by
  induction l with
  | nil => exact pure _
  | cons a l ih =>
      obtain ⟨ha, hl⟩ := List.forall_mem_cons.mp h
      rw [List.forIn_cons, List.flatMap_cons]
      refine ha.bind fun step => ?_
      cases step with
      | done => exact (pure _).mono (List.nil_sublist _)
      | yield => exact ih hl

theorem forM {l : List α} (visited : α → List Origin) {body : α → TableM PUnit}
    (h : ∀ a ∈ l, Visits (visited a) (body a)) : Visits (l.flatMap visited) (l.forM body) := by
  induction l with
  | nil => exact pure _
  | cons a l ih =>
      obtain ⟨ha, hl⟩ := List.forall_mem_cons.mp h
      exact ha.bind fun _ => ih hl

end Visits

theorem visits_ensurePath (parent : NamespaceId) (path : String) :
    Visits [] (TableM.ensurePath parent path) :=
  Visits.of_decls_eq fun s => decls_ensurePath s parent path

theorem visits_enterType (origin : Origin) (container : Container) (c : Cursor) :
    Visits [origin] (enterType origin container c) := by
  refine Visits.seq (Visits.of_decls_eq fun _ => rfl) fun _ => ?_
  exact (Visits.record _ _).bind fun _ => Visits.pure _

/-- Fields are recorded at those of the nodes in a list that have a name. -/
theorem visits_enterField {id : DocumentId} {c : Cursor} {info : String → ValueInfo} :
    Visits [originIn id c] (do
      match c.name? with
      | some name => do
        let field ← TableM.addField (info name)
        record (originIn id c) (.field field)
        return ForInStep.yield PUnit.unit
      | _ => return ForInStep.yield PUnit.unit) := by
  cases c.name? with
  | none => exact (Visits.pure _).mono (List.nil_sublist _)
  | some name =>
      refine Visits.seq (Visits.of_decls_eq fun _ => rfl) fun _ => ?_
      exact (Visits.record _ _).bind fun _ => Visits.pure _

theorem visits_enterEnumMembers (id : DocumentId) (owner : TypeId) (c : Cursor) :
    Visits (c.enumMembers.map (originIn id)) (enterEnumMembers id owner c) := by
  rw [List.map_eq_flatMap]
  refine ((Visits.forIn (fun member => [originIn id member]) fun member _ => ?_).bind
    fun _ => Visits.pure _).mono (by simp)
  exact visits_enterField

theorem fieldDeclarators_sublist (c : Cursor) : fieldDeclarators c <+ c.children.flatMap nodes := by
  unfold fieldDeclarators
  cases hvars : c.variableDeclaration? with
  | none => exact List.nil_sublist _
  | some vars =>
      obtain ⟨hmem, -⟩ := mem_children_of_child? hvars
      refine List.Sublist.trans ?_ (nodes_sublist_of_mem_children hmem)
      rw [nodes_eq (isNode_of_mem_children hmem)]
      exact .cons _ (List.filter_sublist.trans
        (sublist_flatMap_nodes fun _ => isNode_of_mem_children))

theorem visits_enterFields (id : DocumentId) (owner : TypeId) (c : Cursor) :
    Visits ((fieldDeclarators c).map (originIn id)) (enterFields id owner c) := by
  rw [List.map_eq_flatMap]
  refine ((Visits.forIn (fun declarator => [originIn id declarator]) fun declarator _ => ?_).bind
    fun _ => Visits.pure _).mono (by simp [fieldDeclarators])
  exact visits_enterField

theorem visits_enterProperty (origin : Origin) (owner : TypeId) (c : Cursor) :
    Visits [origin] (enterProperty origin owner c) := by
  rw [enterProperty]
  cases c.name? with
  | none => exact (Visits.pure _).mono (List.nil_sublist _)
  | some name =>
      exact Visits.seq (Visits.of_decls_eq fun _ => rfl) fun _ => Visits.record _ _

theorem visits_enterMethod (origin : Origin) (owner : TypeId) (c : Cursor) :
    Visits [origin] (enterMethod origin owner c) := by
  refine Visits.seq (Visits.of_decls_eq fun _ => rfl) fun info => ?_
  simp only
  split
  · exact Visits.seq (Visits.of_decls_eq fun _ => rfl) fun _ => Visits.record _ _
  · exact Visits.seq (Visits.of_decls_eq fun _ => rfl) fun _ => Visits.record _ _

/-- Entering a member records nodes in the order of the walk over it. -/
theorem visits_enterMember (id : DocumentId) (fuel : Nat) (container : Container) {c : Cursor}
    (hc : c.isNode = true) : Visits (c.nodes.map (originIn id)) (enterMember id fuel container c) := by
  induction fuel generalizing container c with
  | zero => exact (Visits.pure _).mono (List.nil_sublist _)
  | succ fuel ih =>
      rw [nodes_eq hc, List.map_cons]
      have self {step : TableM PUnit} (h : Visits [originIn id c] step) :
          Visits (originIn id c :: (c.children.flatMap nodes).map (originIn id)) step :=
        h.mono (List.singleton_sublist.mpr List.mem_cons_self)
      have members (inside : Container) : Visits ((c.children.flatMap nodes).map (originIn id)) (do
          for member in c.members do enterMember id fuel inside member) := by
        refine ((Visits.forIn (fun member => member.nodes.map (originIn id))
          fun member hmember => ?_).bind fun _ => Visits.pure _).mono ?_
        · have hnode := isNode_of_mem_children (mem_children_of_mem_childrenOf hmember).1
          exact ((ih inside hnode).bind fun _ => Visits.pure _).mono (by simp)
        · rw [List.append_nil, ← List.map_flatMap]
          exact (List.filter_sublist.flatMap _).map _
      unfold enterMember
      split
      case h_1 parent _ | h_2 parent _ =>
        exact (visits_ensurePath parent _).seq fun _ => (Visits.record _ _).bind fun _ => members _
      case h_3 | h_4 | h_5 =>
        exact (visits_enterType (originIn id c) _ c).bind fun _ => members _
      case h_6 =>
        refine ((visits_enterType (originIn id c) _ c).bind fun _ =>
          visits_enterEnumMembers id _ c).mono (.cons_cons _ (.map _ ?_))
        exact List.filter_sublist.trans (sublist_flatMap_nodes fun _ => isNode_of_mem_children)
      case h_7 =>
        refine self ((visits_enterType (originIn id c) _ c).bind fun _ => ?_)
        exact Visits.of_decls_eq fun _ => rfl
      case h_8 | h_9 => exact self (visits_enterMethod _ _ c)
      case h_10 owner _ =>
        exact (visits_enterFields id owner c).mono (.cons _ ((fieldDeclarators_sublist c).map _))
      case h_11 => exact self (visits_enterProperty _ _ c)
      case h_12 => exact (Visits.pure _).mono (List.nil_sublist _)

theorem visits_enterDocument (doc : Document) :
    Visits (doc.root.nodes.map (originIn doc.id)) (enterDocument doc) := by
  rw [nodes_eq doc.isNode_root, List.map_cons]
  refine ((Visits.forIn (fun member => member.nodes.map (originIn doc.id))
    fun member hmember => ?_).bind fun _ => Visits.pure _).mono (.cons _ ?_)
  · have hnode := isNode_of_mem_children (mem_children_of_mem_childrenOf hmember).1
    exact ((visits_enterMember doc.id _ _ hnode).bind fun _ => Visits.pure _).mono (by simp)
  · rw [List.append_nil, ← List.map_flatMap]
    exact (List.filter_sublist.flatMap _).map _

/-! ## Records of a project -/

/-- The nodes of a project in the order of a walk over it, each with its document. -/
def walk (project : Project) : List (Document × Cursor) :=
  project.documents.flatMap fun doc => doc.root.nodes.map (doc, ·)

theorem nodup_walk (project : Project) : (walk project).Nodup := by
  refine List.nodup_flatMap.mpr ⟨fun doc _ => doc.root.nodup_nodes.map ?_, ?_⟩
  · exact fun c d heq => (Prod.mk.inj heq).2
  · refine (List.pairwise_map.mp project.ids_sorted).imp fun hlt => ?_
    rintro ⟨doc, c⟩ hmem hmem'
    obtain ⟨c, -, heq⟩ := List.mem_map.mp hmem
    obtain ⟨c', -, heq'⟩ := List.mem_map.mp hmem'
    obtain ⟨rfl, -⟩ := Prod.mk.inj heq
    obtain ⟨rfl, -⟩ := Prod.mk.inj heq'
    exact Nat.lt_irrefl _ hlt

theorem mem_walk {project : Project} {doc : Document} {c : Cursor} (h : (doc, c) ∈ walk project) :
    doc ∈ project.documents ∧ Below doc.root c ∧ c.isNode = true := by
  obtain ⟨found, hdoc, hmem⟩ := List.mem_flatMap.mp h
  obtain ⟨node, hnode, heq⟩ := List.mem_map.mp hmem
  obtain ⟨rfl, rfl⟩ := Prod.mk.inj heq
  exact ⟨hdoc, below_of_mem_nodes hnode, (List.mem_filter.mp hnode).2⟩

/-- The records of a project stand in the order of the walk over it. -/
theorem records_sublist (project : Project) :
    (SymbolTable.ofProject project).decls.reverse.map Prod.fst <+
      (walk project).map fun (doc, c) => originIn doc.id c := by
  have hdecls : (SymbolTable.ofProject project).decls =
      ((project.documents.forM enterDocument).run Framework.table).2.decls := by
    have keeps {visit : SymbolTable → Origin → Decl → SymbolTable}
        (hvisit : ∀ s origin decl, Fills s (visit s origin decl)) (s : SymbolTable) :
        (eachDecl visit s).decls = s.decls :=
      eachDecl_keeps (P := fun s' => s'.decls = s.decls)
        (fun s' origin decl h => (hvisit s' origin decl).decls_eq.trans h) rfl
    rw [SymbolTable.ofProject, keeps (fills_resolveSignature project),
      keeps (fills_resolveBases project)]
  have hvisits := Visits.forM (l := project.documents)
    (fun doc => doc.root.nodes.map (originIn doc.id)) fun doc _ => visits_enterDocument doc
  obtain ⟨new, heq, hnew⟩ := hvisits Framework.table
  rw [hdecls, heq, decls_framework, List.append_nil, walk, List.map_flatMap]
  simp only [List.map_map]
  exact hnew

/-- At the place of a node that takes some text there is one record. -/
theorem decl_unique {project : Project} {doc : Document} {c : Cursor} {decl decl' : Decl}
    (hdoc : doc ∈ project.documents) (hc : Below doc.root c) (hnode : c.isNode = true)
    (hpos : 0 < c.focus.width)
    (h : (originIn doc.id c, decl) ∈ (SymbolTable.ofProject project).decls)
    (h' : (originIn doc.id c, decl') ∈ (SymbolTable.ofProject project).decls) : decl = decl' := by
  obtain ⟨visited, hvisited, heq⟩ := List.sublist_map_iff.mp (records_sublist project)
  have hnodup : visited.Nodup := (nodup_walk project).sublist hvisited
  -- The records at the place were made for one node of the walk.
  have found {decl : Decl} (h : (originIn doc.id c, decl) ∈ (SymbolTable.ofProject project).decls) :
      ∃ i : Nat, (SymbolTable.ofProject project).decls.reverse[i]? =
        some (originIn doc.id c, decl) ∧ visited[i]? = some (doc, c) := by
    obtain ⟨i, hi⟩ := List.mem_iff_getElem?.mp (List.mem_reverse.mpr h)
    have horigin : (visited.map fun (node : Document × Cursor) => originIn node.1.id node.2)[i]? =
        some (originIn doc.id c) := by
      rw [← heq, List.getElem?_map, hi]
      rfl
    rw [List.getElem?_map] at horigin
    obtain ⟨⟨doc', c'⟩, hget, heq'⟩ := Option.map_eq_some_iff.mp horigin
    obtain ⟨hdoc', hc', hnode'⟩ := mem_walk (hvisited.subset (List.mem_of_getElem? hget))
    obtain ⟨rfl, rfl⟩ := eq_of_origin_eq hdoc hc hnode hpos hdoc' hc' hnode' heq'.symm
    exact ⟨i, hi, hget⟩
  obtain ⟨i, hi, hvisit⟩ := found h
  obtain ⟨j, hj, hvisit'⟩ := found h'
  obtain rfl : i = j := by
    obtain ⟨hlt, hget⟩ := List.getElem?_eq_some_iff.mp hvisit
    obtain ⟨hlt', hget'⟩ := List.getElem?_eq_some_iff.mp hvisit'
    exact hnodup.getElem_inj_iff.mp (hget.trans hget'.symm)
  exact (Prod.mk.inj (Option.some.inj (hi.symm.trans hj))).2

/-- Looking up the place of a node that takes some text finds its record. -/
theorem decl?_of_mem {project : Project} {doc : Document} {c : Cursor} {decl : Decl}
    (hdoc : doc ∈ project.documents) (hc : Below doc.root c) (hnode : c.isNode = true)
    (hpos : 0 < c.focus.width)
    (h : (originIn doc.id c, decl) ∈ (SymbolTable.ofProject project).decls) :
    (SymbolTable.ofProject project).decl? (originIn doc.id c) = some decl := by
  obtain ⟨found, hfound⟩ := SymbolTable.exists_decl? h
  rw [hfound, decl_unique hdoc hc hnode hpos (SymbolTable.mem_of_decl? hfound) h]

end Semantics

end CSharpKit
