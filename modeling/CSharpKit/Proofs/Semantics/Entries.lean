import CSharpKit.Proofs.Syntax.Lexing
import CSharpKit.Proofs.Syntax.Places
import CSharpKit.Semantics.Declare

/-!
# How a table grows

The passes over a project change its table in few ways. Each entry of the first
pass is one of those listed in `Entry`, with what is known of the node it was
made for; the later passes only fill in types. What is to be known of a finished
table is proved of one entry at a time.
-/

namespace CSharpKit.Semantics

open Syntax Workspace Cursor Token

/-! ## Chains of steps -/

/-- A step leads from a table to another one in a number of changes. -/
def Leads {α : Type} (R : SymbolTable → SymbolTable → Prop) (s : SymbolTable) (step : TableM α) :
    Prop := Relation.ReflTransGen R s (step.run s).2

namespace Leads

variable {α β : Type} {R : SymbolTable → SymbolTable → Prop} {s : SymbolTable}

theorem pure (a : α) : Leads R s (pure a : TableM α) := Relation.ReflTransGen.refl

theorem bind {step : TableM α} {more : α → TableM β} (h : Leads R s step)
    (hmore : Leads R (step.run s).2 (more (step.run s).1)) : Leads R s (step >>= more) :=
  Relation.ReflTransGen.trans h hmore

theorem get : Leads R s get := Relation.ReflTransGen.refl

/-- Steps that lead somewhere from every table. -/
theorem seq {step : TableM α} {more : α → TableM β} (h : Leads R s step)
    (hmore : ∀ a s', Leads R s' (more a)) : Leads R s (step >>= more) := h.bind (hmore _ _)

/-- A loop whose turns all lead somewhere. A turn knows how the loop got there. -/
theorem forIn {l : List α} {body : α → PUnit → TableM (ForInStep PUnit)}
    (h : ∀ a ∈ l, ∀ s', Relation.ReflTransGen R s s' → Leads R s' (body a ⟨⟩)) :
    Leads R s (forIn l PUnit.unit body) := by
  suffices hloop : ∀ s', Relation.ReflTransGen R s s' → Leads R s' (ForIn.forIn l PUnit.unit body) from
    hloop s Relation.ReflTransGen.refl
  induction l with
  | nil => exact fun s' _ => Leads.pure _
  | cons a l ih =>
      intro s' hs'
      have hfirst := h a List.mem_cons_self s' hs'
      rw [List.forIn_cons]
      refine hfirst.bind ?_
      split
      · exact Leads.pure _
      · exact ih (fun b hb => h b (List.mem_cons_of_mem _ hb)) _ (hs'.trans hfirst)

theorem forM {l : List α} {body : α → TableM PUnit} (h : ∀ a ∈ l, ∀ s', Leads R s' (body a)) :
    Leads R s (l.forM body) := by
  induction l generalizing s with
  | nil => exact Leads.pure _
  | cons a l ih =>
      exact Leads.bind (h a List.mem_cons_self s) (ih fun b hb => h b (List.mem_cons_of_mem _ hb))

theorem mono {Q : SymbolTable → SymbolTable → Prop} {step : TableM α} (h : Leads R s step)
    (himp : ∀ s s', R s s' → Q s s') : Leads Q s step := Relation.ReflTransGen.mono himp _ _ h

/-- What every change keeps, a step keeps. -/
theorem keeps {P : SymbolTable → Prop} {step : TableM α} (h : Leads R s step)
    (hkeep : ∀ s s', R s s' → P s → P s') (hs : P s) : P (step.run s).2 := by
  have hchain : ∀ s', Relation.ReflTransGen R s s' → P s' := by
    intro s' hchain
    induction hchain with
    | refl => exact hs
    | tail _ hstep ih => exact hkeep _ _ hstep ih
  exact hchain _ h

end Leads

/-! ## Entries of the framework -/

namespace Framework

/-- One entry of the framework. -/
inductive Provided : SymbolTable → SymbolTable → Prop
  | space {s : SymbolTable} (parent : NamespaceId) {path : String} (hpath : Tight path) :
      Provided s (s.ensurePath parent path).1
  | type {s : SymbolTable} {info : TypeInfo} (hname : Tight info.name) :
      Provided s (s.addType info).1
  | method {s : SymbolTable} (info : MethodInfo) : Provided s (s.addMethod info).1
  | field {s : SymbolTable} (info : ValueInfo) : Provided s (s.addField info).1
  | property {s : SymbolTable} (info : ValueInfo) : Provided s (s.addProperty info).1
  | bases {s : SymbolTable} (id : TypeId) (bases : List Ty) : Provided s (s.setBases id bases)

variable {s : SymbolTable}

theorem leads_ensurePath (parent : NamespaceId) {path : String} (hpath : Tight path) :
    Leads Provided s (TableM.ensurePath parent path) :=
  Relation.ReflTransGen.single (.space parent hpath)

theorem leads_addType {name : String} (hname : Tight name) {kind : TypeKind}
    {container : Container} {typeParams : List String} {access : Access}
    {isAbstract isStatic : Bool} {keyword? : Option Kind} {bases : List Ty}
    {origin? : Option Origin} : Leads Provided s (TableM.addType ⟨name, kind, container, typeParams,
      access, isAbstract, isStatic, keyword?, bases, origin?⟩) :=
  Relation.ReflTransGen.single (.type hname)

theorem leads_addMethod (info : MethodInfo) : Leads Provided s (TableM.addMethod info) :=
  Relation.ReflTransGen.single (.method info)

theorem leads_addProperty (info : ValueInfo) : Leads Provided s (TableM.addProperty info) :=
  Relation.ReflTransGen.single (.property info)

theorem leads_method (owner : TypeId) (name : String) (isStatic : Bool)
    (params : List ParameterInfo) (returnTy : Ty) :
    Leads Provided s (method owner name isStatic params returnTy) :=
  (leads_addMethod _).seq fun _ _ => Leads.pure _

theorem leads_constructor (owner : TypeId) : Leads Provided s (constructor owner) :=
  Leads.get.seq fun _ _ => (leads_addMethod _).seq fun _ _ => Leads.pure _

theorem leads_delegate (ns : NamespaceId) {name : String} (hname : Tight name)
    (typeParams parameters : List String) (returnTy : TypeId → Ty) :
    Leads Provided s (delegate ns name typeParams parameters returnTy) :=
  (leads_addType hname).seq fun _ _ => (leads_addMethod _).seq fun _ _ => Leads.pure _

theorem leads_genericDelegate (ns : NamespaceId) {name : String} (hname : Tight name)
    (typeParam : String) (params : Ty → List ParameterInfo) (returnTy : Ty) :
    Leads Provided s (genericDelegate ns name typeParam params returnTy) :=
  (leads_addType hname).seq fun _ _ => (leads_addMethod _).seq fun _ _ => Leads.pure _

theorem leads_genericType (ns : NamespaceId) {name : String} (hname : Tight name) (kind : TypeKind)
    (typeParams : List String) : Leads Provided s (genericType ns name kind typeParams) :=
  leads_addType hname

theorem leads_staticClass (ns : NamespaceId) {name : String} (hname : Tight name) :
    Leads Provided s (staticClass ns name) := leads_addType hname

theorem leads_arrayFactory (owner array : TypeId) (name : String)
    (params : Ty → List ParameterInfo) : Leads Provided s (arrayFactory owner array name params) :=
  Leads.get.seq fun _ _ => (leads_addMethod _).seq fun _ _ => Leads.pure _

theorem leads_console (system : NamespaceId) (string object int : Ty) :
    Leads Provided s (console system string object int) := by
  refine (leads_staticClass _ (by decide)).seq fun _ _ => (leads_method ..).seq fun _ _ => ?_
  refine Leads.seq (Leads.forIn fun _ _ _ _ => ?_) fun _ _ => Leads.pure _
  exact (leads_method ..).seq fun _ _ => Leads.pure _

theorem leads_delegates (system : NamespaceId) (object int bool : Ty) :
    Leads Provided s (delegates system object int bool) := by
  refine Leads.seq (Leads.forIn fun _ _ _ _ => ?_) fun _ _ =>
    Leads.seq (Leads.forIn fun _ _ _ _ => ?_) fun _ _ => ?_
  · exact (leads_delegate _ (by decide) ..).seq fun _ _ => Leads.pure _
  · exact (leads_delegate _ (by decide) ..).seq fun _ _ => Leads.pure _
  · refine (leads_delegate _ (by decide) ..).seq fun _ _ => ?_
    refine (leads_genericDelegate _ (by decide) ..).seq fun _ _ => ?_
    exact leads_genericDelegate _ (by decide) ..

theorem leads_collections (int : Ty) : Leads Provided s (collections int) := by
  refine (leads_ensurePath _ (by decide)).seq fun _ _ => ?_
  refine (leads_genericType _ (by decide) ..).seq fun _ _ => ?_
  refine (leads_genericType _ (by decide) ..).seq fun _ _ => ?_
  refine Leads.seq (Relation.ReflTransGen.single (.bases _ _)) fun _ _ => ?_
  refine (leads_constructor _).seq fun _ _ => (leads_method ..).seq fun _ _ => ?_
  refine (leads_addProperty _).seq fun _ _ => (leads_genericType _ (by decide) ..).seq fun _ _ => ?_
  exact (leads_constructor _).seq fun _ _ => leads_method ..

theorem leads_immutableArrays (int : Ty) : Leads Provided s (immutableArrays int) := by
  refine (leads_ensurePath _ (by decide)).seq fun _ _ => ?_
  refine (leads_genericType _ (by decide) ..).seq fun _ _ => ?_
  refine Leads.seq (Relation.ReflTransGen.single (.field _)) fun _ _ => ?_
  refine (leads_method ..).seq fun _ _ => (leads_addProperty _).seq fun _ _ => ?_
  refine (leads_staticClass _ (by decide)).seq fun _ _ => (leads_arrayFactory ..).seq fun _ _ => ?_
  exact (leads_arrayFactory ..).seq fun _ _ => leads_arrayFactory ..

theorem leads_declare : Leads Provided s declare := by
  have hpredefined : ∀ entry ∈ predefined, Tight entry.1 := by decide
  refine (leads_ensurePath _ (by decide)).seq fun _ _ => ?_
  refine Leads.seq (Leads.forIn fun entry hentry _ _ => ?_) fun _ _ => ?_
  · exact (leads_addType (hpredefined entry hentry)).seq fun _ _ => Leads.pure _
  refine Leads.get.seq fun _ _ => (leads_console ..).seq fun _ _ => ?_
  refine (leads_addType (by decide)).seq fun _ _ => (leads_addType (by decide)).seq fun _ _ => ?_
  refine (leads_delegates ..).seq fun _ _ => (leads_collections _).seq fun _ _ => ?_
  exact leads_immutableArrays _

theorem table_keeps {P : SymbolTable → Prop} (hempty : P .empty)
    (hentry : ∀ s s', Provided s s' → P s → P s') : P table :=
  leads_declare.keeps hentry hempty

end Framework

/-! ## Entries of documents -/

namespace Declare

/-- The path that a namespace declaration writes. -/
def writtenPath (c : Cursor) : String := (c.type?.map fun t => t.focus.plainText).getD ""

/-- A node that declares a method or a constructor. -/
def DeclaresMethod (c : Cursor) : Prop :=
  c.kind = .methodDeclaration ∨ c.kind = .constructorDeclaration

theorem DeclaresMethod.hasOwnToken {c : Cursor} (h : DeclaresMethod c) :
    c.kind.hasOwnToken = true := by
  rcases h with h | h <;> rw [h] <;> rfl

/-- A node that the first pass comes to, outside of types or in one. -/
inductive Reached (root : Cursor) : Bool → Cursor → Prop
  | top {c : Cursor} (hc : c ∈ root.members) : Reached root false c
  | space {p c : Cursor} (hp : Reached root false p) (hkind : p.kind.isNamespaceDeclaration = true)
      (hc : c ∈ p.members) : Reached root false c
  | type {inType : Bool} {p c : Cursor} (hp : Reached root inType p)
      (hkind : p.kind.isTypeDeclaration = true) (hc : c ∈ p.members) : Reached root true c

theorem below_of_mem_members {p c : Cursor} (h : c ∈ p.members) : Below p c :=
  below_of_mem_children (mem_children_of_mem_childrenOf h).1

theorem Reached.below_root {root c : Cursor} {inType : Bool} (h : Reached root inType c) :
    Below root c := by
  induction h with
  | top hc => exact below_of_mem_members hc
  | space _ _ hc ih | type _ _ hc ih => exact ih.trans (below_of_mem_members hc)

/-- Where a member is entered: outside of types in a namespace that has been come
to, or in a type declaration that has been entered as the type that contains it. -/
inductive Placed (doc : Document) (s : SymbolTable) : Container → Cursor → Prop
  | space {ns : NamespaceId} {c : Cursor} (h : Reached doc.root false c)
      (hrecord : ns = SymbolTable.global ∨ ∃ origin, (origin, .space ns) ∈ s.decls) :
      Placed doc s (.space ns) c
  | type {inType : Bool} {owner : TypeId} {p c : Cursor} (hp : Reached doc.root inType p)
      (hkind : p.kind.isTypeDeclaration = true) (hc : c ∈ p.members)
      (hrecord : (⟨doc.id, Pointer.of p⟩, .type owner) ∈ s.decls) : Placed doc s (.type owner) c

theorem Placed.reached {doc : Document} {s : SymbolTable} {container : Container} {c : Cursor}
    (h : Placed doc s container c) : ∃ inType, Reached doc.root inType c := by
  cases h with
  | space h => exact ⟨_, h⟩
  | type hp hkind hc _ => exact ⟨_, .type hp hkind hc⟩

theorem Placed.below_root {doc : Document} {s : SymbolTable} {container : Container} {c : Cursor}
    (h : Placed doc s container c) : Below doc.root c := by
  obtain ⟨_, hreached⟩ := h.reached
  exact hreached.below_root

theorem Placed.owner_recorded {doc : Document} {s : SymbolTable} {owner : TypeId} {c : Cursor}
    (h : Placed doc s (.type owner) c) : ∃ origin, (origin, .type owner) ∈ s.decls := by
  cases h with
  | type hp hkind hc hrecord => exact ⟨_, hrecord⟩

theorem Reached.isNode {root c : Cursor} {inType : Bool} (h : Reached root inType c) :
    c.isNode = true := by
  cases h with
  | top hc | space _ _ hc | type _ _ hc =>
      exact isNode_of_mem_children (mem_children_of_mem_childrenOf hc).1

/-- The variables that a field declaration lists. -/
def fieldDeclarators (c : Cursor) : List Cursor :=
  (c.variableDeclaration?.map Cursor.declarators).getD []

/-- Where a field is entered: as a variable of a declaration in its type, or as a value of
an enumeration. -/
inductive Listed (doc : Document) (s : SymbolTable) (owner : TypeId) (c : Cursor) : Prop
  | declared {p : Cursor} (hplaced : Placed doc s (.type owner) p)
      (hkind : p.kind = .fieldDeclaration) (hc : c ∈ fieldDeclarators p)
  | value {p : Cursor} (hkind : p.kind = .enumDeclaration) (hc : c ∈ p.enumMembers)

/-- What is entered for a type declaration, apart from its modifiers and bases. -/
structure Describes (origin : Origin) (container : Container) (c : Cursor) (info : TypeInfo) :
    Prop where
  name_eq : info.name = c.name?.getD ""
  kind_eq : info.kind = typeKind c.kind
  container_eq : info.container = container
  typeParams_eq : info.typeParams = typeParamNames c
  keyword?_eq : info.keyword? = none
  origin?_eq : info.origin? = some origin

/-- What is entered for a method or a constructor, apart from its modifiers and types. -/
structure DescribesMethod (origin : Origin) (owner : TypeId) (c : Cursor) (info : MethodInfo) :
    Prop where
  name_eq : c.kind = .methodDeclaration → info.name = c.name?.getD ""
  kind_ne : info.kind ≠ .invoke
  owner_eq : info.owner = owner
  origin?_eq : info.origin? = some origin

/-- What is entered for a field or a property, apart from its modifiers and type. -/
structure DescribesValue (origin : Origin) (owner : TypeId) (c : Cursor) (info : ValueInfo) :
    Prop where
  name_eq : c.name? = some info.name
  owner_eq : info.owner = owner
  origin?_eq : info.origin? = some origin

/-- The call of a delegate before its types are known. -/
def callOf (origin : Origin) (owner : TypeId) : MethodInfo :=
  { name := "Invoke", kind := .invoke, owner, origin? := some origin }

/-- One entry that a document makes in a table. The call of a delegate is entered
together with it. -/
inductive Entry (doc : Document) : SymbolTable → SymbolTable → Prop
  | space {s : SymbolTable} {c : Cursor} {parent : NamespaceId}
      (hplaced : Placed doc s (.space parent) c) (hkind : c.kind.isNamespaceDeclaration = true) :
      Entry doc s ((s.ensurePath parent (writtenPath c)).1.record ⟨doc.id, Pointer.of c⟩
        (.space (s.ensurePath parent (writtenPath c)).2))
  | type {s : SymbolTable} {container : Container} {c : Cursor} {info : TypeInfo}
      (hplaced : Placed doc s container c)
      (hkind : c.kind.isTypeDeclaration = true ∨ c.kind = .enumDeclaration)
      (hinfo : Describes ⟨doc.id, Pointer.of c⟩ container c info) (hbases : info.bases = []) :
      Entry doc s ((s.addType info).1.record ⟨doc.id, Pointer.of c⟩ (.type (s.addType info).2))
  | delegate {s : SymbolTable} {container : Container} {c : Cursor} {info : TypeInfo}
      (hplaced : Placed doc s container c) (hkind : c.kind = .delegateDeclaration)
      (hinfo : Describes ⟨doc.id, Pointer.of c⟩ container c info) (hbases : info.bases = []) :
      Entry doc s (((s.addType info).1.record ⟨doc.id, Pointer.of c⟩
        (.type (s.addType info).2)).addMethod
          (callOf ⟨doc.id, Pointer.of c⟩ (s.addType info).2)).1
  /-- A method stands in a type declaration that has been entered. -/
  | method {s : SymbolTable} {c : Cursor} {owner : TypeId} {info : MethodInfo}
      (hplaced : Placed doc s (.type owner) c) (hkind : DeclaresMethod c)
      (hinfo : DescribesMethod ⟨doc.id, Pointer.of c⟩ owner c info)
      (hbare : info.params = [] ∧ info.returnTy = .void) :
      Entry doc s ((s.addMethod info).1.record ⟨doc.id, Pointer.of c⟩ (.method (s.addMethod info).2))
  | field {s : SymbolTable} {c : Cursor} {owner : TypeId} {info : ValueInfo} (hc : Below doc.root c)
      (hnode : c.isNode = true)
      (hkind : c.kind = .enumMemberDeclaration ∨ c.kind = .variableDeclarator)
      (howner : ∃ origin, (origin, .type owner) ∈ s.decls)
      (hinfo : DescribesValue ⟨doc.id, Pointer.of c⟩ owner c info)
      (hty : info.ty = .plain owner ∨ info.ty = .error "") (hlisted : Listed doc s owner c) :
      Entry doc s ((s.addField info).1.record ⟨doc.id, Pointer.of c⟩ (.field (s.addField info).2))
  | property {s : SymbolTable} {c : Cursor} {owner : TypeId} {info : ValueInfo}
      (hplaced : Placed doc s (.type owner) c) (hkind : c.kind = .propertyDeclaration)
      (hinfo : DescribesValue ⟨doc.id, Pointer.of c⟩ owner c info) (hty : info.ty = .error "") :
      Entry doc s ((s.addProperty info).1.record ⟨doc.id, Pointer.of c⟩
        (.property (s.addProperty info).2))

variable {doc : Document}

theorem exists_ensureSpace_eq (s : SymbolTable) (parent : NamespaceId) (name : String) :
    ∃ namespaces, (s.ensureSpace parent name).1 = { s with namespaces } := by
  rw [SymbolTable.ensureSpace]
  split
  · exact ⟨s.namespaces, rfl⟩
  · exact ⟨_, rfl⟩

/-- To find or add a namespace changes nothing but the namespaces. -/
theorem exists_ensurePath_eq (s : SymbolTable) (parent : NamespaceId) (path : String) :
    ∃ namespaces, (s.ensurePath parent path).1 = { s with namespaces } := by
  rw [SymbolTable.ensurePath]
  generalize SymbolTable.segments path = segments
  induction segments generalizing s parent with
  | nil => exact ⟨s.namespaces, rfl⟩
  | cons segment segments ih =>
      obtain ⟨_, hfirst⟩ := exists_ensureSpace_eq s parent segment
      obtain ⟨namespaces, hrest⟩ := ih (s.ensureSpace parent segment).1 (s.ensureSpace parent segment).2
      refine ⟨namespaces, hrest.trans ?_⟩
      rw [hfirst]

/-- What does not look at the namespaces is kept where one is entered. -/
theorem enterSpace_keeps {P : SymbolTable → Prop} {s : SymbolTable} {parent : NamespaceId}
    {path : String} {origin : Origin} {decl : Decl}
    (h : ∀ namespaces, P { s with namespaces, decls := (origin, decl) :: s.decls }) :
    P ((s.ensurePath parent path).1.record origin decl) := by
  obtain ⟨namespaces, heq⟩ := exists_ensurePath_eq s parent path
  rw [heq]
  exact h namespaces

theorem decls_ensurePath (s : SymbolTable) (parent : NamespaceId) (path : String) :
    (s.ensurePath parent path).1.decls = s.decls := by
  obtain ⟨namespaces, heq⟩ := exists_ensurePath_eq s parent path
  rw [heq]

/-- Declarations are only added. -/
theorem Entry.decls_suffix {s s' : SymbolTable} (h : Entry doc s s') : s.decls <:+ s'.decls := by
  cases h with
  | @space c parent hplaced hkind =>
      rw [← decls_ensurePath s parent]
      exact List.suffix_cons _ _
  | type | delegate | method | field | property => exact List.suffix_cons _ _

theorem decls_suffix_of_entries {s s' : SymbolTable} (h : Relation.ReflTransGen (Entry doc) s s') :
    s.decls <:+ s'.decls := by
  induction h with
  | refl => exact List.suffix_refl _
  | tail _ hentry ih => exact ih.trans hentry.decls_suffix

theorem Placed.mono {s s' : SymbolTable} {container : Container} {c : Cursor}
    (h : Placed doc s container c) (hdecls : s.decls ⊆ s'.decls) : Placed doc s' container c := by
  cases h with
  | space h hrecord => exact .space h (hrecord.imp_right fun ⟨origin, hmem⟩ => ⟨origin, hdecls hmem⟩)
  | type hp hkind hc hrecord => exact .type hp hkind hc (hdecls hrecord)

theorem Listed.mono {s s' : SymbolTable} {owner : TypeId} {c : Cursor} (h : Listed doc s owner c)
    (hdecls : s.decls ⊆ s'.decls) : Listed doc s' owner c := by
  cases h with
  | declared hplaced hkind hc => exact .declared (hplaced.mono hdecls) hkind hc
  | value hkind hc => exact .value hkind hc

theorem leads_enterType {s : SymbolTable} {container : Container} {c : Cursor}
    (hplaced : Placed doc s container c)
    (hkind : c.kind.isTypeDeclaration = true ∨ c.kind = .enumDeclaration) :
    Leads (Entry doc) s (enterType ⟨doc.id, Pointer.of c⟩ container c) :=
  Relation.ReflTransGen.single (Entry.type hplaced hkind ⟨rfl, rfl, rfl, rfl, rfl, rfl⟩ rfl)

theorem leads_enterDelegate {s : SymbolTable} {container : Container} {c : Cursor}
    (hplaced : Placed doc s container c) (hkind : c.kind = .delegateDeclaration) :
    Leads (Entry doc) s (do
      let id ← enterType ⟨doc.id, Pointer.of c⟩ container c
      enterInvoke ⟨doc.id, Pointer.of c⟩ id) :=
  Relation.ReflTransGen.single
    (Entry.delegate hplaced hkind ⟨rfl, rfl, rfl, rfl, rfl, rfl⟩ rfl)

/-- The type that was just entered is recorded. -/
theorem mem_decls_enterType (s : SymbolTable) (origin : Origin) (container : Container) (c : Cursor) :
    (origin, .type ((enterType origin container c).run s).1) ∈
      ((enterType origin container c).run s).2.decls :=
  List.mem_cons_self

/-- A namespace is found or added, and recorded. -/
theorem leads_enterSpace {s : SymbolTable} {c : Cursor} {parent : NamespaceId}
    {more : NamespaceId → TableM Unit} (hplaced : Placed doc s (.space parent) c)
    (hkind : c.kind.isNamespaceDeclaration = true)
    (hmore : ∀ ns s', (⟨doc.id, Pointer.of c⟩, .space ns) ∈ s'.decls →
      Leads (Entry doc) s' (more ns)) : Leads (Entry doc) s (do
      let ns ← TableM.ensurePath parent (writtenPath c)
      record ⟨doc.id, Pointer.of c⟩ (.space ns)
      more ns) :=
  Relation.ReflTransGen.head (Entry.space hplaced hkind) (hmore _ _ List.mem_cons_self)

theorem leads_enterEnumMembers {s : SymbolTable} {origin : Origin} {owner : TypeId} {c : Cursor}
    (hc : Below doc.root c) (hkind : c.kind = .enumDeclaration)
    (howner : (origin, .type owner) ∈ s.decls) :
    Leads (Entry doc) s (enterEnumMembers doc.id owner c) := by
  refine Leads.bind (Leads.forIn fun member hmember s' hs' => ?_) (Leads.pure _)
  obtain ⟨hmem, hmemberKind⟩ := mem_children_of_mem_childrenOfKind hmember
  cases hname : member.name? with
  | none => exact Leads.pure _
  | some name =>
      have howner' := (decls_suffix_of_entries hs').subset howner
      exact Relation.ReflTransGen.single (Entry.field (hc.trans (below_of_mem_children hmem))
        (isNode_of_mem_children hmem) (.inl hmemberKind) ⟨origin, howner'⟩ ⟨hname, rfl, rfl⟩
        (.inl rfl) (.value hkind hmember))

theorem below_of_mem_fieldDeclarators {c declarator : Cursor} (h : declarator ∈ fieldDeclarators c) :
    Below c declarator ∧ declarator.isNode = true ∧ declarator.kind = .variableDeclarator := by
  unfold fieldDeclarators at h
  cases hvars : c.variableDeclaration? with
  | none => simp [hvars] at h
  | some vars =>
      rw [hvars] at h
      obtain ⟨hmem, hkind⟩ := mem_children_of_mem_childrenOfKind h
      have hbelow := below_of_mem_children (mem_children_of_child? hvars).1
      exact ⟨hbelow.trans (below_of_mem_children hmem), isNode_of_mem_children hmem, hkind⟩

theorem leads_enterFields {s : SymbolTable} {owner : TypeId} {c : Cursor}
    (hplaced : Placed doc s (.type owner) c) (hfield : c.kind = .fieldDeclaration) :
    Leads (Entry doc) s (enterFields doc.id owner c) := by
  refine Leads.bind (Leads.forIn fun declarator hdeclarator s' hs' => ?_) (Leads.pure _)
  obtain ⟨hbelow, hnode, hkind⟩ := below_of_mem_fieldDeclarators hdeclarator
  cases hname : declarator.name? with
  | none => exact Leads.pure _
  | some name =>
      have hplaced' := hplaced.mono (decls_suffix_of_entries hs').subset
      exact Relation.ReflTransGen.single (Entry.field (hplaced.below_root.trans hbelow) hnode
        (.inr hkind) hplaced'.owner_recorded ⟨hname, rfl, rfl⟩ (.inr rfl)
        (.declared hplaced' hfield hdeclarator))

theorem leads_enterProperty {s : SymbolTable} {c : Cursor} {owner : TypeId}
    (hplaced : Placed doc s (.type owner) c) (hkind : c.kind = .propertyDeclaration) :
    Leads (Entry doc) s (enterProperty ⟨doc.id, Pointer.of c⟩ owner c) := by
  rw [enterProperty]
  cases hname : c.name? with
  | none => exact Leads.pure _
  | some name =>
      exact Relation.ReflTransGen.single (Entry.property hplaced hkind ⟨hname, rfl, rfl⟩ rfl)

theorem leads_enterMethod {s : SymbolTable} {c : Cursor} {owner : TypeId}
    (hplaced : Placed doc s (.type owner) c) (hkind : DeclaresMethod c) :
    Leads (Entry doc) s (enterMethod ⟨doc.id, Pointer.of c⟩ owner c) := by
  by_cases hconstructor : (c.kind == .constructorDeclaration) = true
  · have hname : c.kind ≠ .methodDeclaration := by
      intro heq
      simp [heq] at hconstructor
    simp only [Leads, enterMethod, hconstructor, if_true]
    exact Relation.ReflTransGen.single (Entry.method hplaced hkind
      ⟨fun h => absurd h hname, by simp, rfl, rfl⟩ ⟨rfl, rfl⟩)
  · simp only [Leads, enterMethod, hconstructor]
    exact Relation.ReflTransGen.single (Entry.method hplaced hkind
      ⟨fun _ => rfl, by simp, rfl, rfl⟩ ⟨rfl, rfl⟩)

/-- Entering a member makes entries, and those of what it contains. -/
theorem leads_enterMember (fuel : Nat) {s : SymbolTable} {container : Container} {c : Cursor}
    (h : Placed doc s container c) : Leads (Entry doc) s (enterMember doc.id fuel container c) := by
  induction fuel generalizing s container c with
  | zero => exact Leads.pure _
  | succ fuel ih =>
      have declared : c.kind.isTypeDeclaration = true → Leads (Entry doc) s (do
          let id ← enterType ⟨doc.id, Pointer.of c⟩ container c
          for member in c.members do enterMember doc.id fuel (.type id) member) := by
        intro hkind
        refine Leads.bind (leads_enterType h (.inl hkind)) ?_
        refine Leads.bind (Leads.forIn fun member hmember s' hs' => ?_) (Leads.pure _)
        obtain ⟨_, hreached⟩ := h.reached
        refine (ih (.type hreached hkind hmember ?_)).bind (Leads.pure _)
        exact (decls_suffix_of_entries hs').subset (mem_decls_enterType s _ container c)
      have spaced {parent : NamespaceId} (hplaced : Placed doc s (.space parent) c)
          (hkind : c.kind.isNamespaceDeclaration = true) : Leads (Entry doc) s (do
            let ns ← TableM.ensurePath parent (writtenPath c)
            record ⟨doc.id, Pointer.of c⟩ (.space ns)
            for member in c.members do enterMember doc.id fuel (.space ns) member) := by
        refine leads_enterSpace hplaced hkind fun ns s hrecord => ?_
        refine Leads.bind (Leads.forIn fun member hmember s' hs' => ?_) (Leads.pure _)
        have hrecord' := (decls_suffix_of_entries hs').subset hrecord
        cases hplaced with
        | space hreached =>
            exact (ih (.space (.space hreached hkind hmember) (.inr ⟨_, hrecord'⟩))).bind
              (Leads.pure _)
      unfold enterMember
      split
      case h_1 parent hkind | h_2 parent hkind =>
        exact spaced h (by simp [hkind, Kind.isNamespaceDeclaration])
      case h_3 hkind | h_4 hkind | h_5 hkind =>
        exact declared (by simp [hkind, Kind.isTypeDeclaration])
      case h_6 hkind =>
        exact (leads_enterType h (.inr hkind)).bind (leads_enterEnumMembers h.below_root hkind
          (mem_decls_enterType s ⟨doc.id, Pointer.of c⟩ _ c))
      case h_7 hkind => exact leads_enterDelegate h hkind
      case h_8 owner hkind => exact leads_enterMethod h (.inl hkind)
      case h_9 owner hkind => exact leads_enterMethod h (.inr hkind)
      case h_10 owner hkind => exact leads_enterFields h hkind
      case h_11 owner hkind => exact leads_enterProperty h hkind
      case h_12 => exact Leads.pure _

theorem leads_enterDocument (s : SymbolTable) : Leads (Entry doc) s (enterDocument doc) := by
  refine Leads.bind (Leads.forIn fun member hmember s' _ => ?_) (Leads.pure _)
  exact (leads_enterMember _ (.space (.top hmember) (.inl rfl))).bind (Leads.pure _)

/-! ## The passes -/

end Declare

/-- The table of a project before any base type is resolved. -/
def SymbolTable.entered (project : Project) : SymbolTable :=
  ((project.documents.forM Declare.enterDocument).run Framework.table).2

namespace Declare

theorem eachDecl_keeps {P : SymbolTable → Prop}
    {visit : SymbolTable → Origin → Decl → SymbolTable}
    (hvisit : ∀ s origin decl, P s → P (visit s origin decl)) {s : SymbolTable} (hs : P s) :
    P (eachDecl visit s) := by
  rw [eachDecl]
  generalize s.decls.reverse = decls
  induction decls generalizing s with
  | nil => exact hs
  | cons entry decls ih => exact ih (hvisit s entry.1 entry.2 hs)

/-- A type that a later pass finds in a table: one that a node writes, where it
stands, or what stands for a type that is not written. -/
inductive Resolved (s : SymbolTable) : Ty → Prop
  | written (document : DocumentId) (at_ c : Cursor) :
      Resolved s ((Scope.at_ s document at_).resolveType c)
  | void : Resolved s .void
  | missing : Resolved s (.error "")

/-- One step of the later passes fills in types, or does nothing. -/
inductive Fills (s : SymbolTable) : SymbolTable → Prop
  | none : Fills s s
  | bases (id : TypeId) {bases : List Ty} (h : ∀ ty ∈ bases, Resolved s ty) :
      Fills s (s.setBases id bases)
  | signature (id : MethodId) {params : List ParameterInfo} {returnTy : Ty}
      (hparams : ∀ p ∈ params, Resolved s p.ty) (hreturn : Resolved s returnTy) :
      Fills s (s.setSignature id params returnTy)
  | fieldTy (id : FieldId) {ty : Ty} (h : Resolved s ty) : Fills s (s.setFieldTy id ty)
  | propertyTy (id : PropertyId) {ty : Ty} (h : Resolved s ty) : Fills s (s.setPropertyTy id ty)

theorem fills_resolveBases (project : Project) (s : SymbolTable) (origin : Origin) (decl : Decl) :
    Fills s (resolveBases project s origin decl) := by
  unfold resolveBases
  split
  · split
    · refine .bases _ fun ty hty => ?_
      obtain ⟨c, -, rfl⟩ := List.mem_map.mp hty
      exact .written ..
    · exact .none
  · exact .none

theorem resolved_parameterInfos {s : SymbolTable} {document : DocumentId} {c at_ : Cursor}
    {p : ParameterInfo} (h : p ∈ parameterInfos (Scope.at_ s document at_) document c) :
    Resolved s p.ty := by
  obtain ⟨param, -, rfl⟩ := List.mem_map.mp h
  cases htype : param.type? with
  | none => simpa [htype] using Resolved.missing
  | some written => simpa [htype] using Resolved.written document at_ written

theorem fills_resolveSignature (project : Project) (s : SymbolTable) (origin : Origin)
    (decl : Decl) : Fills s (resolveSignature project s origin decl) := by
  unfold resolveSignature
  split
  · exact .none
  · next c hc =>
    have hreturn : Resolved s ((c.type?.map (Scope.at_ s origin.document c).resolveType).getD .void) := by
      cases c.type? with
      | none => exact .void
      | some written => exact .written ..
    have hparams : ∀ p ∈ parameterInfos (Scope.at_ s origin.document c) origin.document c,
        Resolved s p.ty := fun p => resolved_parameterInfos
    simp only
    split
    · split
      · exact .signature _ hparams hreturn
      · exact .none
    · exact .signature _ hparams hreturn
    · exact .signature _ hparams .void
    · split
      · exact .fieldTy _ (.written ..)
      · exact .none
    · split
      · exact .propertyTy _ (.written ..)
      · exact .none
    · exact .none

/-- What holds of the framework and is kept by every entry of a document holds of the
table that the first pass makes. -/
theorem entered_keeps {P : SymbolTable → Prop} {project : Project} (hframework : P Framework.table)
    (hentry : ∀ doc ∈ project.documents, ∀ s s', Entry doc s s' → P s → P s') :
    P (.entered project) := by
  let R (s s' : SymbolTable) : Prop := ∃ doc ∈ project.documents, Entry doc s s'
  have hleads : Leads R Framework.table (project.documents.forM enterDocument) :=
    Leads.forM fun doc hdoc s => (leads_enterDocument s).mono fun s s' h => ⟨doc, hdoc, h⟩
  refine hleads.keeps ?_ hframework
  rintro s s' ⟨doc, hdoc, h⟩
  exact hentry doc hdoc s s' h

/-- What holds of the framework, and is kept by every entry of a document and by
filling in types, holds of the table of a project. -/
theorem ofProject_keeps {P : SymbolTable → Prop} {project : Project} (hframework : P Framework.table)
    (hentry : ∀ doc ∈ project.documents, ∀ s s', Entry doc s s' → P s → P s')
    (hfills : ∀ s s', Fills s s' → P s → P s') : P (SymbolTable.ofProject project) := by
  refine eachDecl_keeps (fun s origin decl => ?_) (eachDecl_keeps (fun s origin decl => ?_)
    (entered_keeps hframework hentry))
  · exact hfills _ _ (fills_resolveSignature project s origin decl)
  · exact hfills _ _ (fills_resolveBases project s origin decl)

end Declare

end CSharpKit.Semantics
