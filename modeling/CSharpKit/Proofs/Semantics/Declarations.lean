import CSharpKit.Proofs.Semantics.Entries
import CSharpKit.Proofs.Syntax.Identity
import CSharpKit.Proofs.Workspace.Documents
import CSharpKit.Semantics.Symbol

/-!
# Declarations lead back to the sources

Each record of a table tells what stands at its place in the sources, and the
table says of a type what is written there. Later entries and later passes leave
this as it is: they add to a table, or fill in bases and signatures.
-/

namespace CSharpKit.Semantics

open Syntax Workspace Cursor Declare

theorem isFile_tree (doc : Document) : IsFile doc.text doc.parsed.tree := by
  rw [doc.parsed_eq]
  exact isFile_parse doc.text

theorem kind_root (doc : Document) : doc.root.kind = .compilationUnit := by
  obtain ⟨cs, -, htree⟩ := parse_complete doc.text
  rw [Document.root, doc.parsed_eq, htree]
  rfl

theorem hasOwnToken_of_declaresType {k : Kind} (h : k.isTypeDeclaration = true ∨
    k = .enumDeclaration ∨ k = .delegateDeclaration) : k.hasOwnToken = true := by
  rcases h with h | rfl | rfl
  · cases k <;> simp [Kind.isTypeDeclaration] at h <;> rfl
  · rfl
  · rfl

/-- The pointer to a node of a document that takes some text leads back to it. -/
theorem resolve_tree (doc : Document) {c : Cursor} (hc : Below doc.root c) (hnode : c.isNode = true)
    (hpos : 0 < c.focus.width) : (Pointer.of c).resolve doc.root = .ok (some c) := by
  rw [Document.root, doc.parsed_eq] at hc ⊢
  exact resolve_parse hc hnode hpos

/-! ## Growth -/

/-- Entries are only added, and what a `head` tells of one stays. -/
structure Grown {α β : Type} (head : α → β) (a b : Array α) : Prop where
  size_le : a.size ≤ b.size
  head_eq : ∀ i, i < a.size → (b[i]?).map head = (a[i]?).map head

namespace Grown

variable {α β : Type} {head : α → β} {a b c : Array α}

theorem refl (head : α → β) (a : Array α) : Grown head a a := ⟨Nat.le_refl _, fun _ _ => rfl⟩

theorem trans (h : Grown head a b) (h' : Grown head b c) : Grown head a c where
  size_le := Nat.le_trans h.size_le h'.size_le
  head_eq i hi := (h'.head_eq i (Nat.lt_of_lt_of_le hi h.size_le)).trans (h.head_eq i hi)

theorem push (head : α → β) (a : Array α) (x : α) : Grown head a (a.push x) := by
  refine ⟨by simp, fun i hi => ?_⟩
  rw [Array.getElem?_push, if_neg (Nat.ne_of_lt hi)]

theorem modify (a : Array α) (i : Nat) (f : α → α) (hf : ∀ x, head (f x) = head x) :
    Grown head a (a.modify i f) := by
  refine ⟨by simp, fun j _ => ?_⟩
  rw [Array.getElem?_modify]
  split
  · rw [Option.map_map]
    exact congrArg (Option.map · a[j]?) (funext hf)
  · rfl

/-- What is known of an entry by its head. -/
theorem getD_eq [Inhabited α] (h : Grown head a b) {i : Nat} (hi : i < a.size) :
    head ((b[i]?).getD default) = head ((a[i]?).getD default) := by
  have heq := h.head_eq i hi
  have hi' : i < b.size := Nat.lt_of_lt_of_le hi h.size_le
  simpa [hi, hi'] using heq

end Grown

/-- A type without its bases, which are filled in later. -/
def TypeInfo.head (info : TypeInfo) : TypeInfo := { info with bases := [] }

/-- A method without its signature, which is filled in later. -/
def MethodInfo.head (info : MethodInfo) : MethodInfo := { info with params := [], returnTy := .void }

/-- A field or property without its type, which is filled in later. -/
def ValueInfo.head (info : ValueInfo) : ValueInfo := { info with ty := .void }

/-- Entries and records are only added. -/
structure Grows (s s' : SymbolTable) : Prop where
  decls : s.decls ⊆ s'.decls
  namespaces : Grown id s.namespaces s'.namespaces
  types : Grown TypeInfo.head s.types s'.types
  methods : Grown MethodInfo.head s.methods s'.methods
  fields : Grown ValueInfo.head s.fields s'.fields
  properties : Grown ValueInfo.head s.properties s'.properties

namespace Grows

variable {s s' s'' : SymbolTable}

theorem refl (s : SymbolTable) : Grows s s :=
  ⟨List.Subset.refl _, .refl _ _, .refl _ _, .refl _ _, .refl _ _, .refl _ _⟩

theorem trans (h : Grows s s') (h' : Grows s' s'') : Grows s s'' where
  decls := List.Subset.trans h.decls h'.decls
  namespaces := h.namespaces.trans h'.namespaces
  types := h.types.trans h'.types
  methods := h.methods.trans h'.methods
  fields := h.fields.trans h'.fields
  properties := h.properties.trans h'.properties

theorem record (s : SymbolTable) (origin : Origin) (decl : Decl) : Grows s (s.record origin decl) :=
  { refl s with decls := List.subset_cons_self _ _ }

theorem addType (s : SymbolTable) (info : TypeInfo) : Grows s (s.addType info).1 :=
  { refl s with types := .push _ _ _ }

theorem addMethod (s : SymbolTable) (info : MethodInfo) : Grows s (s.addMethod info).1 :=
  { refl s with methods := .push _ _ _ }

theorem addField (s : SymbolTable) (info : ValueInfo) : Grows s (s.addField info).1 :=
  { refl s with fields := .push _ _ _ }

theorem addProperty (s : SymbolTable) (info : ValueInfo) : Grows s (s.addProperty info).1 :=
  { refl s with properties := .push _ _ _ }

theorem ensureSpace (s : SymbolTable) (parent : NamespaceId) (name : String) :
    Grows s (s.ensureSpace parent name).1 := by
  unfold SymbolTable.ensureSpace
  split
  · exact refl s
  · exact { refl s with namespaces := .push _ _ _ }

theorem ensurePath (s : SymbolTable) (parent : NamespaceId) (path : String) :
    Grows s (s.ensurePath parent path).1 := by
  rw [SymbolTable.ensurePath]
  generalize SymbolTable.segments path = segments
  induction segments generalizing s parent with
  | nil => exact refl s
  | cons segment segments ih => exact (ensureSpace s parent segment).trans (ih _ _)

theorem type_eq (h : Grows s s') {id : TypeId} (hid : id.num < s.types.size) :
    (s'.type id).head = (s.type id).head := h.types.getD_eq hid

theorem method_eq (h : Grows s s') {id : MethodId} (hid : id.num < s.methods.size) :
    (s'.method id).head = (s.method id).head := h.methods.getD_eq hid

theorem field_eq (h : Grows s s') {id : FieldId} (hid : id.num < s.fields.size) :
    (s'.field id).head = (s.field id).head := h.fields.getD_eq hid

theorem property_eq (h : Grows s s') {id : PropertyId} (hid : id.num < s.properties.size) :
    (s'.property id).head = (s.property id).head := h.properties.getD_eq hid

end Grows

/-- Entries add to a table. -/
theorem Declare.Entry.grows {doc : Document} {s s' : SymbolTable} (h : Entry doc s s') :
    Grows s s' := by
  cases h with
  | space => exact (Grows.ensurePath s _ _).trans (Grows.record _ _ _)
  | type => exact (Grows.addType s _).trans (Grows.record _ _ _)
  | delegate =>
      exact ((Grows.addType s _).trans (Grows.record _ _ _)).trans (Grows.addMethod _ _)
  | method => exact (Grows.addMethod s _).trans (Grows.record _ _ _)
  | field => exact (Grows.addField s _).trans (Grows.record _ _ _)
  | property => exact (Grows.addProperty s _).trans (Grows.record _ _ _)

/-- Later passes leave the entries of a table in place. -/
theorem Declare.Fills.grows {s s' : SymbolTable} (h : Fills s s') : Grows s s' := by
  cases h with
  | none => exact Grows.refl s
  | @bases id bases =>
      let fill (info : TypeInfo) : TypeInfo := { info with bases }
      exact { Grows.refl s with types := .modify _ id.num fill fun _ => rfl }
  | @signature id params returnTy =>
      let fill (info : MethodInfo) : MethodInfo := { info with params, returnTy }
      exact { Grows.refl s with methods := .modify _ id.num fill fun _ => rfl }
  | @fieldTy id ty =>
      let fill (info : ValueInfo) : ValueInfo := { info with ty }
      exact { Grows.refl s with fields := .modify _ id.num fill fun _ => rfl }
  | @propertyTy id ty =>
      let fill (info : ValueInfo) : ValueInfo := { info with ty }
      exact { Grows.refl s with properties := .modify _ id.num fill fun _ => rfl }

theorem Declare.Fills.decls_eq {s s' : SymbolTable} (h : Fills s s') : s'.decls = s.decls := by
  cases h <;> rfl

/-! ## New entries -/

section

variable {s s' : SymbolTable}

theorem type_of_push {info : TypeInfo} (h : s'.types = s.types.push info) {id : TypeId} :
    s'.type id = if id.num = s.types.size then info else s.type id := by
  rw [SymbolTable.type, SymbolTable.type, h, Array.getElem?_push]
  split <;> rfl

theorem method_of_push {info : MethodInfo} (h : s'.methods = s.methods.push info) {id : MethodId} :
    s'.method id = if id.num = s.methods.size then info else s.method id := by
  rw [SymbolTable.method, SymbolTable.method, h, Array.getElem?_push]
  split <;> rfl

theorem field_of_push {info : ValueInfo} (h : s'.fields = s.fields.push info) {id : FieldId} :
    s'.field id = if id.num = s.fields.size then info else s.field id := by
  rw [SymbolTable.field, SymbolTable.field, h, Array.getElem?_push]
  split <;> rfl

theorem property_of_push {info : ValueInfo} (h : s'.properties = s.properties.push info)
    {id : PropertyId} :
    s'.property id = if id.num = s.properties.size then info else s.property id := by
  rw [SymbolTable.property, SymbolTable.property, h, Array.getElem?_push]
  split <;> rfl

end

theorem Declare.Describes.of_head_eq {origin : Origin} {container : Container} {c : Cursor}
    {info info' : TypeInfo} (h : Describes origin container c info) (heq : info'.head = info.head) :
    Describes origin container c info' where
  name_eq := (congrArg TypeInfo.name heq).trans h.name_eq
  kind_eq := (congrArg TypeInfo.kind heq).trans h.kind_eq
  container_eq := (congrArg TypeInfo.container heq).trans h.container_eq
  typeParams_eq := (congrArg TypeInfo.typeParams heq).trans h.typeParams_eq
  keyword?_eq := (congrArg TypeInfo.keyword? heq).trans h.keyword?_eq
  origin?_eq := (congrArg TypeInfo.origin? heq).trans h.origin?_eq

theorem Declare.DescribesMethod.of_head_eq {origin : Origin} {owner : TypeId} {c : Cursor}
    {info info' : MethodInfo} (h : DescribesMethod origin owner c info)
    (heq : info'.head = info.head) : DescribesMethod origin owner c info' where
  name_eq hkind := (congrArg MethodInfo.name heq).trans (h.name_eq hkind)
  kind_ne hkind := by
    have hsame := congrArg MethodInfo.kind heq
    exact h.kind_ne (hsame.symm.trans hkind)
  owner_eq := (congrArg MethodInfo.owner heq).trans h.owner_eq
  origin?_eq := (congrArg MethodInfo.origin? heq).trans h.origin?_eq

theorem Declare.DescribesValue.of_head_eq {origin : Origin} {owner : TypeId} {c : Cursor}
    {info info' : ValueInfo} (h : DescribesValue origin owner c info)
    (heq : info'.head = info.head) : DescribesValue origin owner c info' where
  name_eq := h.name_eq.trans (congrArg some (congrArg ValueInfo.name heq).symm)
  owner_eq := (congrArg ValueInfo.owner heq).trans h.owner_eq
  origin?_eq := (congrArg ValueInfo.origin? heq).trans h.origin?_eq

/-! ## What is recorded -/

/-- A delegate that is entered can be called. -/
def HasCall (s : SymbolTable) (id : TypeId) : Prop :=
  ∃ call, call.num < s.methods.size ∧ (s.method call).kind = .invoke ∧ (s.method call).owner = id

/-- What a record of a table says of the sources, and the table of the record. -/
inductive Recorded (project : Project) (s : SymbolTable) : Origin → Decl → Prop
  | space {doc : Document} {c : Cursor} {parent id : NamespaceId}
      (hdoc : doc ∈ project.documents) (hplaced : Placed doc s (.space parent) c)
      (hkind : c.kind.isNamespaceDeclaration = true) :
      Recorded project s ⟨doc.id, Pointer.of c⟩ (.space id)
  | type {doc : Document} {c : Cursor} {container : Container} {id : TypeId}
      (hdoc : doc ∈ project.documents) (hplaced : Placed doc s container c)
      (hkind : c.kind.isTypeDeclaration = true ∨ c.kind = .enumDeclaration ∨
        c.kind = .delegateDeclaration)
      (hinfo : Describes ⟨doc.id, Pointer.of c⟩ container c (s.type id))
      (hlt : id.num < s.types.size) (hcall : c.kind = .delegateDeclaration → HasCall s id) :
      Recorded project s ⟨doc.id, Pointer.of c⟩ (.type id)
  | method {doc : Document} {c : Cursor} {owner : TypeId} {id : MethodId}
      (hdoc : doc ∈ project.documents) (hplaced : Placed doc s (.type owner) c)
      (hkind : DeclaresMethod c)
      (hinfo : DescribesMethod ⟨doc.id, Pointer.of c⟩ owner c (s.method id))
      (hlt : id.num < s.methods.size) : Recorded project s ⟨doc.id, Pointer.of c⟩ (.method id)
  | field {doc : Document} {c : Cursor} {owner : TypeId} {id : FieldId}
      (hdoc : doc ∈ project.documents) (hc : Below doc.root c) (hnode : c.isNode = true)
      (hkind : c.kind = .enumMemberDeclaration ∨ c.kind = .variableDeclarator)
      (hinfo : DescribesValue ⟨doc.id, Pointer.of c⟩ owner c (s.field id))
      (hlt : id.num < s.fields.size) (hlisted : Listed doc s owner c) :
      Recorded project s ⟨doc.id, Pointer.of c⟩ (.field id)
  | property {doc : Document} {c : Cursor} {owner : TypeId} {id : PropertyId}
      (hdoc : doc ∈ project.documents) (hplaced : Placed doc s (.type owner) c)
      (hkind : c.kind = .propertyDeclaration)
      (hinfo : DescribesValue ⟨doc.id, Pointer.of c⟩ owner c (s.property id))
      (hlt : id.num < s.properties.size) : Recorded project s ⟨doc.id, Pointer.of c⟩ (.property id)

section

variable {project : Project} {s s' : SymbolTable} {origin : Origin} {decl : Decl}

theorem HasCall.mono {id : TypeId} (h : HasCall s id) (hgrows : Grows s s') : HasCall s' id := by
  obtain ⟨call, hlt, hkind, howner⟩ := h
  have hkindEq := congrArg MethodInfo.kind (hgrows.method_eq hlt)
  have hownerEq := congrArg MethodInfo.owner (hgrows.method_eq hlt)
  exact ⟨call, Nat.lt_of_lt_of_le hlt hgrows.methods.size_le, hkindEq.trans hkind,
    hownerEq.trans howner⟩

theorem hasCall_of_push {id : TypeId} {call : MethodInfo} (hmethods : s'.methods = s.methods.push call)
    (hcall : call.kind = .invoke) (howner : call.owner = id) : HasCall s' id := by
  refine ⟨⟨s.methods.size⟩, by simp [hmethods], ?_⟩
  rw [method_of_push hmethods, if_pos rfl]
  exact ⟨hcall, howner⟩

theorem Recorded.mono (h : Recorded project s origin decl) (hgrows : Grows s s') :
    Recorded project s' origin decl := by
  cases h with
  | space hdoc hplaced hkind => exact .space hdoc (hplaced.mono hgrows.decls) hkind
  | type hdoc hplaced hkind hinfo hlt hcall =>
      exact .type hdoc (hplaced.mono hgrows.decls) hkind (hinfo.of_head_eq (hgrows.type_eq hlt))
        (Nat.lt_of_lt_of_le hlt hgrows.types.size_le) fun hkind => (hcall hkind).mono hgrows
  | method hdoc hplaced hkind hinfo hlt =>
      exact .method hdoc (hplaced.mono hgrows.decls) hkind (hinfo.of_head_eq (hgrows.method_eq hlt))
        (Nat.lt_of_lt_of_le hlt hgrows.methods.size_le)
  | field hdoc hc hnode hkind hinfo hlt hlisted =>
      exact .field hdoc hc hnode hkind (hinfo.of_head_eq (hgrows.field_eq hlt))
        (Nat.lt_of_lt_of_le hlt hgrows.fields.size_le) (hlisted.mono hgrows.decls)
  | property hdoc hplaced hkind hinfo hlt =>
      exact .property hdoc (hplaced.mono hgrows.decls) hkind
        (hinfo.of_head_eq (hgrows.property_eq hlt))
        (Nat.lt_of_lt_of_le hlt hgrows.properties.size_le)

end

/-- The record of one entry is right, and the only new one. -/
theorem Declare.Entry.exists_record {project : Project} {doc : Document} {s s' : SymbolTable}
    (hdoc : doc ∈ project.documents) (h : Entry doc s s') :
    ∃ origin decl, s'.decls = (origin, decl) :: s.decls ∧ Recorded project s' origin decl := by
  have hgrows := h.grows
  cases h with
  | @space c parent hplaced hkind =>
      exact ⟨_, _, congrArg (List.cons _) (decls_ensurePath s parent _),
        .space hdoc (hplaced.mono hgrows.decls) hkind⟩
  | @type container c info hplaced hkind hinfo =>
      refine ⟨_, _, rfl, .type hdoc (hplaced.mono hgrows.decls) (hkind.imp_right .inl) ?_ ?_ ?_⟩
      · rw [type_of_push (s := s) rfl]
        simpa [SymbolTable.addType] using hinfo
      · simp [SymbolTable.record, SymbolTable.addType]
      · intro hdelegate
        simp [hdelegate, Kind.isTypeDeclaration] at hkind
  | @delegate container c info hplaced hkind hinfo =>
      refine ⟨_, _, rfl, .type hdoc (hplaced.mono hgrows.decls) (.inr (.inr hkind)) ?_ ?_ ?_⟩
      · rw [type_of_push (s := s) rfl]
        simpa [SymbolTable.addType] using hinfo
      · simp [SymbolTable.record, SymbolTable.addType, SymbolTable.addMethod]
      · exact fun _ => hasCall_of_push (s := s) rfl rfl rfl
  | @method c owner info hplaced hkind hinfo =>
      refine ⟨_, _, rfl, .method hdoc (hplaced.mono hgrows.decls) hkind ?_ ?_⟩
      · rw [method_of_push (s := s) rfl]
        simpa [SymbolTable.addMethod] using hinfo
      · simp [SymbolTable.record, SymbolTable.addMethod]
  | @field c owner info hc hnode hkind howner hinfo hty hlisted =>
      have hnew : DescribesValue ⟨doc.id, Pointer.of c⟩ owner c
          (((s.addField info).1.record ⟨doc.id, Pointer.of c⟩
            (.field (s.addField info).2)).field (s.addField info).2) := by
        rw [field_of_push (s := s) rfl]
        simpa [SymbolTable.addField] using hinfo
      refine ⟨_, _, rfl, .field hdoc hc hnode hkind hnew ?_ (hlisted.mono hgrows.decls)⟩
      · simp [SymbolTable.record, SymbolTable.addField]
  | @property c owner info hplaced hkind hinfo =>
      refine ⟨_, _, rfl, .property hdoc (hplaced.mono hgrows.decls) hkind ?_ ?_⟩
      · rw [property_of_push (s := s) rfl]
        simpa [SymbolTable.addProperty] using hinfo
      · simp [SymbolTable.record, SymbolTable.addProperty]

/-- All records of a table are right. -/
def Sourced (project : Project) (s : SymbolTable) : Prop :=
  ∀ origin decl, (origin, decl) ∈ s.decls → Recorded project s origin decl

theorem decls_framework : Framework.table.decls = [] := by
  refine Framework.table_keeps (P := fun s => s.decls = []) rfl ?_
  intro s s' h hs
  cases h with
  | space parent hpath => rw [decls_ensurePath, hs]
  | type | method | field | property | bases => exact hs

theorem Sourced.entry {project : Project} {doc : Document} {s s' : SymbolTable}
    (hs : Sourced project s) (hdoc : doc ∈ project.documents) (hentry : Declare.Entry doc s s') :
    Sourced project s' := by
  intro origin decl hmem
  obtain ⟨newOrigin, newDecl, hdecls, hrecord⟩ := hentry.exists_record hdoc
  rcases List.mem_cons.mp (hdecls ▸ hmem) with hnew | hold
  · obtain ⟨rfl, rfl⟩ := Prod.mk.inj hnew
    exact hrecord
  · exact (hs _ _ hold).mono hentry.grows

theorem sourced_framework (project : Project) : Sourced project Framework.table := by
  intro origin decl hmem
  simp [decls_framework] at hmem

theorem sourced_ofProject (project : Project) : Sourced project (SymbolTable.ofProject project) := by
  refine ofProject_keeps (sourced_framework project) (fun _ hdoc _ _ hentry hs => hs.entry hdoc hentry) ?_
  intro s s' hfills hs origin decl hmem
  exact (hs _ _ (hfills.decls_eq ▸ hmem)).mono hfills.grows

/-! ## Looking records up -/

theorem SymbolTable.mem_of_decl? {s : SymbolTable} {origin : Origin} {decl : Decl}
    (h : s.decl? origin = some decl) : (origin, decl) ∈ s.decls := mem_of_lookup_eq_some h

theorem SymbolTable.exists_decl? {s : SymbolTable} {origin : Origin} {decl : Decl}
    (h : (origin, decl) ∈ s.decls) : ∃ found, s.decl? origin = some found := by
  cases hfound : s.decl? origin with
  | some found => exact ⟨found, rfl⟩
  | none => exact absurd (List.lookup_eq_none_iff.mp hfound (origin, decl) h) (by simp)

section

variable {project : Project} {s : SymbolTable} {doc : Document} {c : Cursor}

/-- A node that declares a type is recorded as a type, if at all. -/
theorem Sourced.exists_type_decl? (h : Sourced project s) {origin : Origin} {decl : Decl}
    (hmem : (origin, decl) ∈ s.decls) (hkind : origin.pointer.kind.isTypeDeclaration = true) :
    ∃ id, s.decl? origin = some (.type id) := by
  obtain ⟨found, hfound⟩ := SymbolTable.exists_decl? hmem
  cases h _ _ (SymbolTable.mem_of_decl? hfound) with
  | type => exact ⟨_, hfound⟩
  | @space doc c parent id _ _ hspace =>
      replace hkind : c.kind.isTypeDeclaration = true := hkind
      cases hk : c.kind <;> simp [hk, Kind.isNamespaceDeclaration] at hspace <;>
        simp [hk, Kind.isTypeDeclaration] at hkind
  | method _ _ hmethod =>
      rcases hmethod with hk | hk <;> simp [Pointer.of, hk, Kind.isTypeDeclaration] at hkind
  | field _ _ _ hfield =>
      rcases hfield with hk | hk <;> simp [Pointer.of, hk, Kind.isTypeDeclaration] at hkind
  | property _ _ hk => simp [Pointer.of, hk, Kind.isTypeDeclaration] at hkind

/-- The node that a record was made for. -/
theorem eq_of_origin_eq {doc' : Document} {c' : Cursor} (hdoc : doc ∈ project.documents)
    (hc : Below doc.root c) (hnode : c.isNode = true) (hpos : 0 < c.focus.width)
    (hdoc' : doc' ∈ project.documents) (hc' : Below doc'.root c') (hnode' : c'.isNode = true)
    (h : Origin.mk doc.id (Pointer.of c) = ⟨doc'.id, Pointer.of c'⟩) : doc = doc' ∧ c = c' := by
  obtain ⟨hid, hpointer⟩ := Origin.mk.inj h
  obtain rfl := Project.eq_of_id_eq hdoc hdoc' hid
  have hwidth : c.focus.width = c'.focus.width := congrArg (·.span.length) hpointer
  have hresolve := resolve_tree doc hc hnode hpos
  rw [hpointer, resolve_tree doc hc' hnode' (hwidth ▸ hpos)] at hresolve
  exact ⟨rfl, (Option.some.inj (Except.ok.inj hresolve)).symm⟩

theorem nodeAt?_of_resolve {pointer : Pointer}
    (hdoc : doc ∈ project.documents) (h : pointer.resolve doc.root = .ok (some c)) :
    nodeAt? project ⟨doc.id, pointer⟩ = some c := by
  simp [nodeAt?, Project.document?_of_mem hdoc, h, Except.toOption]

theorem declaredMethod?_eq_some {id : MethodId} {m : Model} (h : m.declaredMethod? c = some id) :
    m.decl? c = some (.method id) := by
  unfold Model.declaredMethod? at h
  split at h
  · next found hfound =>
    obtain rfl : found = id := Option.some.inj h
    exact hfound
  · cases h

/-- A method that is recorded for a node of a document stands in a type
declaration that was come to, and this is recorded as a type. -/
theorem exists_declaredType? {id : MethodId} (hdoc : doc ∈ project.documents)
    (hc : Below doc.root c) (hnode : c.isNode = true) (hkind : DeclaresMethod c)
    (h : (Model.mk (.ofProject project) doc.id).declaredMethod? c = some id) :
    ∃ inType p owner, Reached doc.root inType p ∧ c ∈ p.members ∧ p.kind.isTypeDeclaration = true ∧
      (Model.mk (.ofProject project) doc.id).declaredType? p = some owner := by
  have hsourced := sourced_ofProject project
  have hmem := SymbolTable.mem_of_decl? (declaredMethod?_eq_some h)
  generalize horigin : Origin.mk doc.id (Pointer.of c) = origin at hmem
  cases hsourced _ _ hmem with
  | @method doc' c' _ _ hdoc' hplaced =>
      cases hplaced with
      | @type inType owner p _ hp htype hc' hrecord =>
          have hreached : Reached doc'.root true c' := .type hp htype hc'
          have hpos := (isFile_tree doc).width_pos_declaration hc hnode hkind.hasOwnToken
          obtain ⟨rfl, rfl⟩ := eq_of_origin_eq hdoc hc hnode hpos hdoc' hreached.below_root
            hreached.isNode horigin
          obtain ⟨found, hfound⟩ := hsourced.exists_type_decl? hrecord htype
          refine ⟨inType, p, found, hp, hc', htype, ?_⟩
          simp [Model.declaredType?, Model.decl?, hfound]

end

end CSharpKit.Semantics
