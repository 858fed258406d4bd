import CSharpKit.Proofs.Semantics.Ranges
import CSharpKit.Proofs.Semantics.Visits

/-!
# Tables are consistent

A table refers to nothing but its own entries. Each entry is listed once, with
what it belongs to, and from there the way leads out to the global namespace. A
declaration of the sources is found by the pointer to its node, and the pointer
finds the node.
-/

namespace CSharpKit.Semantics

open Syntax Workspace Cursor Declare

/-! ## References -/

/-- All entries of an array have a property, at their places. -/
def EachEntry {α : Type} (P : Nat → α → Prop) (a : Array α) : Prop := ∀ i x, a[i]? = some x → P i x

/-- Only the first namespace has no parent; the parent of another stands before it. -/
def NamespaceInfo.Ordered (i : Nat) (info : NamespaceInfo) : Prop :=
  match info.parent? with
  | none => i = 0
  | some parent => parent.num < i

/-- What a type is declared in is an entry of the table, and a type stands before it. -/
def Container.Precedes (s : SymbolTable) (i : Nat) : Container → Prop
  | .space ns => ns.num < s.namespaces.size
  | .type outer => outer.num < i

structure TypeInfo.InRange (s : SymbolTable) (i : Nat) (info : TypeInfo) : Prop where
  container : info.container.Precedes s i
  bases : ∀ ty ∈ info.bases, ty.inRange s = true

structure MethodInfo.InRange (s : SymbolTable) (info : MethodInfo) : Prop where
  owner : info.owner.num < s.types.size
  params : ∀ p ∈ info.params, p.ty.inRange s = true
  returnTy : info.returnTy.inRange s = true

structure ValueInfo.InRange (s : SymbolTable) (info : ValueInfo) : Prop where
  owner : info.owner.num < s.types.size
  ty : info.ty.inRange s = true

/-- All numbers in a table are those of its entries. -/
structure SymbolTable.Closed (s : SymbolTable) : Prop where
  global_lt : SymbolTable.global.num < s.namespaces.size
  namespaces : EachEntry NamespaceInfo.Ordered s.namespaces
  types : EachEntry (TypeInfo.InRange s) s.types
  methods : EachEntry (fun _ => MethodInfo.InRange s) s.methods
  fields : EachEntry (fun _ => ValueInfo.InRange s) s.fields
  properties : EachEntry (fun _ => ValueInfo.InRange s) s.properties
  decls : ∀ origin decl, (origin, decl) ∈ s.decls → decl.InRange s

namespace EachEntry

variable {α : Type} {P Q : Nat → α → Prop} {a : Array α}

theorem mono (h : EachEntry P a) (himp : ∀ i x, P i x → Q i x) : EachEntry Q a :=
  fun i x hx => himp i x (h i x hx)

theorem push (h : EachEntry P a) {x : α} (hx : P a.size x) : EachEntry P (a.push x) := by
  intro i y hy
  rw [Array.getElem?_push] at hy
  split at hy
  · next hi =>
    obtain rfl := Option.some.inj hy
    exact hi ▸ hx
  · exact h i y hy

theorem modify (h : EachEntry P a) {j : Nat} {f : α → α} (hf : ∀ i x, P i x → P i (f x)) :
    EachEntry P (a.modify j f) := by
  intro i y hy
  rw [Array.getElem?_modify] at hy
  split at hy
  · obtain ⟨x, hx, rfl⟩ := Option.map_eq_some_iff.mp hy
    exact hf i x (h i x hx)
  · exact h i y hy

end EachEntry

section

variable {s s' : SymbolTable}

theorem TypeInfo.InRange.mono {i : Nat} {info : TypeInfo} (h : info.InRange s i)
    (hgrows : Grows s s') : info.InRange s' i where
  container := by
    have hcontainer := h.container
    cases hinfo : info.container with
    | space ns =>
        rw [hinfo] at hcontainer
        exact Nat.lt_of_lt_of_le hcontainer hgrows.namespaces.size_le
    | type outer =>
        rw [hinfo] at hcontainer
        exact hcontainer
  bases ty hty := Ty.inRange_mono hgrows.types.size_le hgrows.methods.size_le ty (h.bases ty hty)

theorem MethodInfo.InRange.mono {info : MethodInfo} (h : info.InRange s) (hgrows : Grows s s') :
    info.InRange s' where
  owner := Nat.lt_of_lt_of_le h.owner hgrows.types.size_le
  params p hp := Ty.inRange_mono hgrows.types.size_le hgrows.methods.size_le p.ty (h.params p hp)
  returnTy := Ty.inRange_mono hgrows.types.size_le hgrows.methods.size_le _ h.returnTy

theorem ValueInfo.InRange.mono {info : ValueInfo} (h : info.InRange s) (hgrows : Grows s s') :
    info.InRange s' where
  owner := Nat.lt_of_lt_of_le h.owner hgrows.types.size_le
  ty := Ty.inRange_mono hgrows.types.size_le hgrows.methods.size_le _ h.ty

theorem Decl.InRange.mono {decl : Decl} (h : decl.InRange s) (hgrows : Grows s s') :
    decl.InRange s' := by
  cases decl with
  | space => exact Nat.lt_of_lt_of_le h hgrows.namespaces.size_le
  | type => exact Nat.lt_of_lt_of_le h hgrows.types.size_le
  | method => exact Nat.lt_of_lt_of_le h hgrows.methods.size_le
  | field => exact Nat.lt_of_lt_of_le h hgrows.fields.size_le
  | property => exact Nat.lt_of_lt_of_le h hgrows.properties.size_le

end

namespace SymbolTable.Closed

variable {s s' : SymbolTable}

/-- What was in range stays in range, so only what is new has to be. -/
theorem of_grows (h : Closed s) (hgrows : Grows s s')
    (hnamespaces : EachEntry NamespaceInfo.Ordered s'.namespaces)
    (htypes : EachEntry (TypeInfo.InRange s') s.types → EachEntry (TypeInfo.InRange s') s'.types)
    (hmethods : EachEntry (fun _ => MethodInfo.InRange s') s.methods →
      EachEntry (fun _ => MethodInfo.InRange s') s'.methods)
    (hfields : EachEntry (fun _ => ValueInfo.InRange s') s.fields →
      EachEntry (fun _ => ValueInfo.InRange s') s'.fields)
    (hproperties : EachEntry (fun _ => ValueInfo.InRange s') s.properties →
      EachEntry (fun _ => ValueInfo.InRange s') s'.properties)
    (hdecls : ∀ origin decl, (origin, decl) ∈ s'.decls → (origin, decl) ∈ s.decls ∨ decl.InRange s') :
    Closed s' where
  global_lt := Nat.lt_of_lt_of_le h.global_lt hgrows.namespaces.size_le
  namespaces := hnamespaces
  types := htypes (h.types.mono fun _ _ hx => hx.mono hgrows)
  methods := hmethods (h.methods.mono fun _ _ hx => hx.mono hgrows)
  fields := hfields (h.fields.mono fun _ _ hx => hx.mono hgrows)
  properties := hproperties (h.properties.mono fun _ _ hx => hx.mono hgrows)
  decls origin decl hmem := (hdecls origin decl hmem).elim
    (fun hold => (h.decls origin decl hold).mono hgrows) id

theorem record (h : Closed s) {origin : Origin} {decl : Decl} (hdecl : decl.InRange s) :
    Closed (s.record origin decl) := by
  refine h.of_grows (Grows.record s origin decl) h.namespaces id id id id fun o d hmem => ?_
  rcases List.mem_cons.mp hmem with heq | hold
  · obtain ⟨-, rfl⟩ := Prod.mk.inj heq
    exact .inr (hdecl.mono (Grows.record s origin d))
  · exact .inl hold

theorem ensureSpace (h : Closed s) {parent : NamespaceId} (hparent : parent.num < s.namespaces.size)
    (name : String) : Closed (s.ensureSpace parent name).1 ∧
      (s.ensureSpace parent name).2.num < (s.ensureSpace parent name).1.namespaces.size := by
  have hgrows := Grows.ensureSpace s parent name
  unfold SymbolTable.ensureSpace at hgrows ⊢
  split at hgrows
  · next id hid =>
    obtain ⟨i, hi, rfl⟩ := Option.map_eq_some_iff.mp hid
    exact ⟨h, (Array.findIdx?_eq_some_iff_getElem.mp hi).1⟩
  · refine ⟨?_, by simp⟩
    refine h.of_grows hgrows (h.namespaces.push ?_) id id id id fun _ _ => .inl
    exact hparent

theorem ensurePath (h : Closed s) {parent : NamespaceId} (hparent : parent.num < s.namespaces.size)
    (path : String) : Closed (s.ensurePath parent path).1 ∧
      (s.ensurePath parent path).2.num < (s.ensurePath parent path).1.namespaces.size := by
  rw [SymbolTable.ensurePath]
  generalize segments path = segments
  induction segments generalizing s parent with
  | nil => exact ⟨h, hparent⟩
  | cons segment segments ih =>
      obtain ⟨hclosed, hlt⟩ := h.ensureSpace hparent segment
      exact ih hclosed hlt

theorem addType (h : Closed s) {info : TypeInfo}
    (hinfo : info.InRange (s.addType info).1 s.types.size) : Closed (s.addType info).1 :=
  h.of_grows (Grows.addType s info) h.namespaces (fun hold => hold.push hinfo) id id id
    fun _ _ => .inl

theorem addMethod (h : Closed s) {info : MethodInfo}
    (hinfo : info.InRange (s.addMethod info).1) : Closed (s.addMethod info).1 :=
  h.of_grows (Grows.addMethod s info) h.namespaces id (fun hold => hold.push hinfo) id id
    fun _ _ => .inl

theorem addField (h : Closed s) {info : ValueInfo}
    (hinfo : info.InRange (s.addField info).1) : Closed (s.addField info).1 :=
  h.of_grows (Grows.addField s info) h.namespaces id id (fun hold => hold.push hinfo) id
    fun _ _ => .inl

theorem addProperty (h : Closed s) {info : ValueInfo}
    (hinfo : info.InRange (s.addProperty info).1) : Closed (s.addProperty info).1 :=
  h.of_grows (Grows.addProperty s info) h.namespaces id id id (fun hold => hold.push hinfo)
    fun _ _ => .inl

/-- Filling in types keeps a table closed. -/
theorem fills (h : Closed s) (hfills : Fills s s') : Closed s' := by
  have hgrows := hfills.grows
  have resolved {ty : Ty} (hty : Resolved s ty) : ty.inRange s' = true :=
    Ty.inRange_mono hgrows.types.size_le hgrows.methods.size_le ty (hty.inRange h.decls)
  cases hfills with
  | none => exact h
  | bases _ hbases =>
      refine h.of_grows hgrows h.namespaces (fun hold => hold.modify fun i x hx => ?_) id id id
        fun _ _ => .inl
      exact ⟨hx.container, fun ty hty => resolved (hbases ty hty)⟩
  | signature _ hparams hreturn =>
      refine h.of_grows hgrows h.namespaces id (fun hold => hold.modify fun i x hx => ?_) id id
        fun _ _ => .inl
      exact ⟨hx.owner, fun p hp => resolved (hparams p hp), resolved hreturn⟩
  | fieldTy _ hty =>
      refine h.of_grows hgrows h.namespaces id id (fun hold => hold.modify fun i x hx => ?_) id
        fun _ _ => .inl
      exact ⟨hx.owner, resolved hty⟩
  | propertyTy _ hty =>
      refine h.of_grows hgrows h.namespaces id id id (fun hold => hold.modify fun i x hx => ?_)
        fun _ _ => .inl
      exact ⟨hx.owner, resolved hty⟩

/-- What a member is entered in is in range. -/
theorem placed (h : Closed s) {doc : Document} {container : Container} {c : Cursor}
    (hplaced : Placed doc s container c) : container.Precedes s s.types.size := by
  cases hplaced with
  | space _ hrecord =>
      rcases hrecord with rfl | ⟨origin, hmem⟩
      · exact h.global_lt
      · exact h.decls _ _ hmem
  | type _ _ _ hrecord => exact h.decls _ _ hrecord

/-- An entry of a document keeps a table closed. -/
theorem entry (h : Closed s) {doc : Document} (hentry : Entry doc s s') : Closed s' := by
  have bare {origin : Origin} {container : Container} {c : Cursor} {info : TypeInfo}
      (hplaced : Placed doc s container c) (hinfo : Describes origin container c info)
      (hbases : info.bases = []) : info.InRange s s.types.size := by
    refine ⟨?_, by simp [hbases]⟩
    rw [hinfo.container_eq]
    exact h.placed hplaced
  cases hentry with
  | space hplaced =>
      obtain ⟨hclosed, hlt⟩ := h.ensurePath (h.placed hplaced) _
      exact hclosed.record hlt
  | @type container c info hplaced hkind hinfo hbases =>
      have hnew := (bare hplaced hinfo hbases).mono (Grows.addType s info)
      exact (h.addType hnew).record (by simp [Decl.InRange, SymbolTable.addType])
  | @delegate container c info hplaced hkind hinfo hbases =>
      have hnew := (bare hplaced hinfo hbases).mono (Grows.addType s info)
      have hclosed : ((s.addType info).1.record ⟨doc.id, Pointer.of c⟩
          (.type (s.addType info).2)).Closed :=
        (h.addType hnew).record (by simp [Decl.InRange, SymbolTable.addType])
      refine hclosed.addMethod ⟨?_, by simp [callOf], rfl⟩
      simp [callOf, SymbolTable.addType, SymbolTable.addMethod, SymbolTable.record]
  | @method c owner info hplaced hkind hinfo hbare =>
      refine (h.addMethod ⟨?_, by simp [hbare.1], by simp [hbare.2, Ty.inRange]⟩).record
        (by simp [Decl.InRange, SymbolTable.addMethod])
      rw [hinfo.owner_eq]
      exact h.placed hplaced
  | @field c owner info hc hnode hkind howner hinfo hty =>
      obtain ⟨origin, hmem⟩ := howner
      have hlt : owner.num < s.types.size := h.decls _ _ hmem
      refine (h.addField ⟨?_, ?_⟩).record (by simp [Decl.InRange, SymbolTable.addField])
      · rw [hinfo.owner_eq]
        exact hlt
      · rcases hty with hty | hty
        · rw [hty]
          exact Ty.inRange_plain.mpr hlt
        · simp [hty, Ty.inRange]
  | @property c owner info hplaced hkind hinfo hty =>
      refine (h.addProperty ⟨?_, by simp [hty, Ty.inRange]⟩).record
        (by simp [Decl.InRange, SymbolTable.addProperty])
      rw [hinfo.owner_eq]
      exact h.placed hplaced

end SymbolTable.Closed

section

variable {α : Type} {P : Nat → α → Prop} {a : Array α}

theorem eachEntry_iff : EachEntry P a ↔ ∀ entry ∈ a.toList.zipIdx, P entry.2 entry.1 := by
  constructor
  · rintro h ⟨x, i⟩ hmem
    exact h i x (by simpa using List.mem_zipIdx_iff_getElem?.mp hmem)
  · intro h i x hx
    exact h (x, i) (List.mem_zipIdx_iff_getElem?.mpr (by simpa using hx))

instance [∀ i x, Decidable (P i x)] : Decidable (EachEntry P a) :=
  decidable_of_iff _ eachEntry_iff.symm

instance (i : Nat) (info : NamespaceInfo) : Decidable (info.Ordered i) :=
  match h : info.parent? with
  | none => decidable_of_iff (i = 0) (by simp [NamespaceInfo.Ordered, h])
  | some parent => decidable_of_iff (parent.num < i) (by simp [NamespaceInfo.Ordered, h])

instance (s : SymbolTable) (i : Nat) : (container : Container) → Decidable (container.Precedes s i)
  | .space ns => inferInstanceAs (Decidable (ns.num < s.namespaces.size))
  | .type outer => inferInstanceAs (Decidable (outer.num < i))

instance (s : SymbolTable) (i : Nat) (info : TypeInfo) : Decidable (info.InRange s i) :=
  decidable_of_iff (info.container.Precedes s i ∧ ∀ ty ∈ info.bases, ty.inRange s = true)
    ⟨fun h => ⟨h.1, h.2⟩, fun h => ⟨h.1, h.2⟩⟩

instance (s : SymbolTable) (info : MethodInfo) : Decidable (info.InRange s) :=
  decidable_of_iff (info.owner.num < s.types.size ∧
      (∀ p ∈ info.params, p.ty.inRange s = true) ∧ info.returnTy.inRange s = true)
    ⟨fun h => ⟨h.1, h.2.1, h.2.2⟩, fun h => ⟨h.1, h.2, h.3⟩⟩

instance (s : SymbolTable) (info : ValueInfo) : Decidable (info.InRange s) :=
  decidable_of_iff (info.owner.num < s.types.size ∧ info.ty.inRange s = true)
    ⟨fun h => ⟨h.1, h.2⟩, fun h => ⟨h.1, h.2⟩⟩

end

theorem closed_framework : Framework.table.Closed where
  global_lt := by decide +kernel
  namespaces := by decide +kernel
  types := by decide +kernel
  methods := by decide +kernel
  fields := by decide +kernel
  properties := by decide +kernel
  decls origin decl hmem := by simp [decls_framework] at hmem

theorem closed_ofProject (project : Project) : (SymbolTable.ofProject project).Closed :=
  ofProject_keeps closed_framework (fun _ _ _ _ hentry h => h.entry hentry)
    fun _ _ hfills h => h.fills hfills

/-! ## The way out -/

/-- Where something is declared, one step further out. -/
inductive SymbolTable.Inside (s : SymbolTable) : Container → Container → Prop
  | space {ns parent : NamespaceId} (h : (s.space ns).parent? = some parent) :
      s.Inside (.space ns) (.space parent)
  | type (t : TypeId) : s.Inside (.type t) (s.type t).container

/-- A container is an entry of a table. -/
def Container.InRange (s : SymbolTable) : Container → Prop
  | .space ns => ns.num < s.namespaces.size
  | .type t => t.num < s.types.size

namespace SymbolTable.Closed

variable {s : SymbolTable} (h : s.Closed)
include h

theorem ordered {ns : NamespaceId} (hns : ns.num < s.namespaces.size) :
    (s.space ns).Ordered ns.num := by
  refine h.namespaces ns.num _ ?_
  simp [SymbolTable.space, hns]

theorem type_inRange {t : TypeId} (ht : t.num < s.types.size) : (s.type t).InRange s t.num := by
  refine h.types t.num _ ?_
  simp [SymbolTable.type, ht]

theorem method_inRange {m : MethodId} (hm : m.num < s.methods.size) : (s.method m).InRange s := by
  refine h.methods m.num _ ?_
  simp [SymbolTable.method, hm]

/-- From a namespace the parents lead to the global one. -/
theorem space_inside_global (n : Nat) (hn : n < s.namespaces.size) :
    Relation.ReflTransGen s.Inside (.space ⟨n⟩) (.space global) := by
  induction n using Nat.strongRecOn with
  | ind n ih =>
      have hordered : (s.space ⟨n⟩).Ordered n := h.ordered hn
      unfold NamespaceInfo.Ordered at hordered
      split at hordered
      · obtain rfl : n = 0 := hordered
        exact .refl
      · next parent hparent =>
        have hlt : parent.num < s.namespaces.size := Nat.lt_trans hordered hn
        exact .head (.space hparent) (ih parent.num hordered hlt)

/-- From a type the containers lead to the global namespace. -/
theorem type_inside_global (n : Nat) (hn : n < s.types.size) :
    Relation.ReflTransGen s.Inside (.type ⟨n⟩) (.space global) := by
  induction n using Nat.strongRecOn with
  | ind n ih =>
      refine .head (.type ⟨n⟩) ?_
      have hcontainer := (h.type_inRange (t := ⟨n⟩) hn).container
      cases hc : (s.type ⟨n⟩).container with
      | space ns =>
          rw [hc] at hcontainer
          exact h.space_inside_global ns.num hcontainer
      | type outer =>
          rw [hc] at hcontainer
          exact ih outer.num hcontainer (Nat.lt_trans hcontainer hn)

theorem inside_global {container : Container} (hcontainer : container.InRange s) :
    Relation.ReflTransGen s.Inside container (.space global) := by
  cases container with
  | space ns => exact h.space_inside_global ns.num hcontainer
  | type t => exact h.type_inside_global t.num hcontainer

end SymbolTable.Closed

/-! ## Listings -/

/-- No two calls belong to one delegate. -/
def SymbolTable.CallsApart (s : SymbolTable) : Prop :=
  ∀ i, i < s.methods.size → ∀ j, j < s.methods.size → (s.method ⟨i⟩).kind = .invoke →
    (s.method ⟨j⟩).kind = .invoke → (s.method ⟨i⟩).owner = (s.method ⟨j⟩).owner → i = j

/-- Each entry is listed once with what it belongs to, and nowhere else. -/
structure SymbolTable.Lists (s : SymbolTable) : Prop where
  children : ∀ parent name child, s.child? parent name = some child →
    child.num < s.namespaces.size ∧ s.space child = ⟨name, some parent⟩
  types : ∀ t container, (s.typesIn container).count t =
    if t.num < s.types.size ∧ (s.type t).container = container then 1 else 0
  methods : ∀ m kind owner, (s.methodsOf kind owner).count m =
    if m.num < s.methods.size ∧ (s.method m).owner = owner ∧ (s.method m).kind = kind then 1 else 0
  call : ∀ m owner, s.invoke? owner = some m ↔
    m.num < s.methods.size ∧ (s.method m).owner = owner ∧ (s.method m).kind = .invoke
  fields : ∀ f owner, (s.fieldsOf owner).count f =
    if f.num < s.fields.size ∧ (s.field f).owner = owner then 1 else 0
  properties : ∀ p owner, (s.propertiesOf owner).count p =
    if p.num < s.properties.size ∧ (s.property p).owner = owner then 1 else 0

theorem callsApart_framework : Framework.table.CallsApart := by
  unfold SymbolTable.CallsApart
  decide +kernel

/-- Calls stay apart if at most one method is new, and if this is a call then of a
new type. -/
theorem SymbolTable.CallsApart.of_grows {s s' : SymbolTable} (h : s.CallsApart) (hclosed : s.Closed)
    (hgrows : Grows s s') (hsize : s'.methods.size ≤ s.methods.size + 1)
    (hnew : s.methods.size < s'.methods.size → (s'.method ⟨s.methods.size⟩).kind = .invoke →
      s.types.size ≤ (s'.method ⟨s.methods.size⟩).owner.num) : s'.CallsApart := by
  have old (i : Nat) (hi : i < s.methods.size) : (s'.method ⟨i⟩).kind = (s.method ⟨i⟩).kind ∧
      (s'.method ⟨i⟩).owner = (s.method ⟨i⟩).owner ∧ (s.method ⟨i⟩).owner.num < s.types.size := by
    have heq : (s'.method ⟨i⟩).head = (s.method ⟨i⟩).head := hgrows.method_eq hi
    have hkind := congrArg MethodInfo.kind heq
    have howner := congrArg MethodInfo.owner heq
    exact ⟨hkind, howner, (hclosed.method_inRange (m := ⟨i⟩) hi).owner⟩
  intro i hi j hj hik hjk howner
  rcases Nat.lt_or_ge i s.methods.size with hiOld | hiNew <;>
    rcases Nat.lt_or_ge j s.methods.size with hjOld | hjNew
  · obtain ⟨hik', hio', -⟩ := old i hiOld
    obtain ⟨hjk', hjo', -⟩ := old j hjOld
    exact h i hiOld j hjOld (hik' ▸ hik) (hjk' ▸ hjk) (hio' ▸ hjo' ▸ howner)
  · obtain rfl : j = s.methods.size := by omega
    obtain ⟨-, hio', hlt⟩ := old i hiOld
    have hge := hnew hj hjk
    rw [← howner, hio'] at hge
    omega
  · obtain rfl : i = s.methods.size := by omega
    obtain ⟨-, hjo', hlt⟩ := old j hjOld
    have hge := hnew hi hik
    rw [howner, hjo'] at hge
    omega
  · omega

theorem SymbolTable.CallsApart.of_size_eq {s s' : SymbolTable} (h : s.CallsApart)
    (hclosed : s.Closed) (hgrows : Grows s s') (hsize : s'.methods.size = s.methods.size) :
    s'.CallsApart :=
  h.of_grows hclosed hgrows (by omega) fun hlt => by omega

/-- A call comes with the delegate it belongs to. -/
theorem SymbolTable.CallsApart.entry {s s' : SymbolTable} (h : s.CallsApart) (hclosed : s.Closed)
    {doc : Document} (hentry : Entry doc s s') : s'.CallsApart := by
  have hgrows := hentry.grows
  cases hentry with
  | space =>
      exact h.of_size_eq hclosed hgrows (enterSpace_keeps
        (P := fun s' => s'.methods.size = s.methods.size) fun _ => rfl)
  | type | field | property => exact h.of_size_eq hclosed hgrows rfl
  | @delegate container c info =>
      refine h.of_grows hclosed hgrows ?_ fun _ _ => ?_
      · simp [SymbolTable.addMethod, SymbolTable.record, SymbolTable.addType]
      · rw [method_of_push (s := s) rfl, if_pos rfl]
        exact Nat.le_refl _
  | @method c owner info hplaced hkind hinfo =>
      refine h.of_grows hclosed hgrows ?_ fun _ hcall => ?_
      · simp [SymbolTable.addMethod, SymbolTable.record]
      · rw [method_of_push (s := s) rfl, if_pos rfl] at hcall
        exact absurd hcall hinfo.kind_ne

theorem callsApart_ofProject (project : Project) : (SymbolTable.ofProject project).CallsApart := by
  suffices h : (SymbolTable.ofProject project).Closed ∧ (SymbolTable.ofProject project).CallsApart
    from h.2
  refine ofProject_keeps (P := fun s => s.Closed ∧ s.CallsApart)
    ⟨closed_framework, callsApart_framework⟩ ?_ ?_
  · rintro doc - s s' hentry ⟨hclosed, hapart⟩
    exact ⟨hclosed.entry hentry, hapart.entry hclosed hentry⟩
  · rintro s s' hfills ⟨hclosed, hapart⟩
    refine ⟨hclosed.fills hfills, hapart.of_size_eq hclosed hfills.grows ?_⟩
    cases hfills with
    | signature => simp [SymbolTable.setSignature]
    | none | bases | fieldTy | propertyTy => rfl

section

variable {α : Type} {mk : Nat → α}

theorem mem_map_range (num : α → Nat) (hnum : ∀ i, num (mk i) = i) (hmk : ∀ a, mk (num a) = a) {n : Nat} {a : α} :
    a ∈ (List.range n).map mk ↔ num a < n := by
  simp only [List.mem_map, List.mem_range]
  constructor
  · rintro ⟨i, hi, rfl⟩
    rwa [hnum]
  · exact fun h => ⟨num a, h, hmk a⟩

/-- Entries that are picked from all those of a table come up once. -/
theorem count_filter_range [DecidableEq α] (num : α → Nat) (hnum : ∀ i, num (mk i) = i)
    (hmk : ∀ a, mk (num a) = a) (n : Nat) (p : α → Bool) (a : α) :
    (((List.range n).map mk).filter p).count a = if num a < n ∧ p a = true then 1 else 0 := by
  have hinjective : Function.Injective mk := fun i j h => by rw [← hnum i, h, hnum]
  have hnodup := (List.nodup_range (n := n)).map hinjective
  rw [(hnodup.filter p).count]
  simp only [List.mem_filter, mem_map_range num hnum hmk]

end

theorem SymbolTable.mem_methodsOf {s : SymbolTable} {kind : MethodKind} {owner : TypeId}
    {m : MethodId} : m ∈ s.methodsOf kind owner ↔
      m.num < s.methods.size ∧ (s.method m).owner = owner ∧ (s.method m).kind = kind := by
  rw [methodsOf, methodIds, List.mem_filter,
    mem_map_range MethodId.num (fun _ => rfl) fun _ => rfl]
  simp

theorem SymbolTable.CallsApart.invoke?_eq_some {s : SymbolTable} (h : s.CallsApart) {m : MethodId}
    {owner : TypeId} : s.invoke? owner = some m ↔
      m.num < s.methods.size ∧ (s.method m).owner = owner ∧ (s.method m).kind = .invoke := by
  rw [← mem_methodsOf, invoke?]
  refine ⟨fun hlast => List.mem_of_getLast? hlast, fun hmem => ?_⟩
  cases hlast : (s.methodsOf .invoke owner).getLast? with
  | none => simp [List.getLast?_eq_none_iff.mp hlast] at hmem
  | some last =>
      obtain ⟨hlt, howner, hkind⟩ := mem_methodsOf.mp (List.mem_of_getLast? hlast)
      obtain ⟨hlt', howner', hkind'⟩ := mem_methodsOf.mp hmem
      have hnum := h last.num hlt m.num hlt' hkind hkind' (howner.trans howner'.symm)
      exact congrArg (some ∘ MethodId.mk) hnum

theorem SymbolTable.child?_eq_some {s : SymbolTable} {parent child : NamespaceId} {name : String}
    (h : s.child? parent name = some child) :
    child.num < s.namespaces.size ∧ s.space child = ⟨name, some parent⟩ := by
  obtain ⟨i, hi, rfl⟩ := Option.map_eq_some_iff.mp h
  obtain ⟨hlt, hfound, -⟩ := Array.findIdx?_eq_some_iff_getElem.mp hi
  simp only [Bool.and_eq_true, beq_iff_eq] at hfound
  refine ⟨hlt, ?_⟩
  rw [space, Array.getElem?_eq_getElem hlt, Option.getD_some, ← hfound.1, ← hfound.2]

theorem SymbolTable.CallsApart.lists {s : SymbolTable} (h : s.CallsApart) : s.Lists where
  children _ _ _ := child?_eq_some
  types t container := by
    rw [typesIn, typeIds, count_filter_range TypeId.num (fun _ => rfl) fun _ => rfl]
    simp
  methods m kind owner := by
    rw [methodsOf, methodIds, count_filter_range MethodId.num (fun _ => rfl) fun _ => rfl]
    simp
  call m owner := h.invoke?_eq_some
  fields f owner := by
    rw [fieldsOf, count_filter_range FieldId.num (fun _ => rfl) fun _ => rfl]
    simp
  properties p owner := by
    rw [propertiesOf, count_filter_range PropertyId.num (fun _ => rfl) fun _ => rfl]
    simp

/-! ## Declarations of the sources -/

/-- What is declared in the sources is recorded there. A call of a delegate is not:
its place is that of the delegate. -/
structure SymbolTable.Records (s : SymbolTable) : Prop where
  types : EachEntry (fun i info => ∀ origin, info.origin? = some origin →
    (origin, .type ⟨i⟩) ∈ s.decls) s.types
  methods : EachEntry (fun i info => ∀ origin, info.origin? = some origin → info.kind ≠ .invoke →
    (origin, .method ⟨i⟩) ∈ s.decls) s.methods
  fields : EachEntry (fun i info => ∀ origin, info.origin? = some origin →
    (origin, .field ⟨i⟩) ∈ s.decls) s.fields
  properties : EachEntry (fun i info => ∀ origin, info.origin? = some origin →
    (origin, .property ⟨i⟩) ∈ s.decls) s.properties

theorem records_framework : Framework.table.Records := by
  have hsources : EachEntry (fun _ info => info.origin? = none) Framework.table.types ∧
      EachEntry (fun _ info => info.origin? = none) Framework.table.methods ∧
      EachEntry (fun _ info => info.origin? = none) Framework.table.fields ∧
      EachEntry (fun _ info => info.origin? = none) Framework.table.properties := by
    decide +kernel
  obtain ⟨htypes, hmethods, hfields, hproperties⟩ := hsources
  constructor
  · exact htypes.mono fun _ info hnone origin h => by simp [hnone] at h
  · exact hmethods.mono fun _ info hnone origin h => by simp [hnone] at h
  · exact hfields.mono fun _ info hnone origin h => by simp [hnone] at h
  · exact hproperties.mono fun _ info hnone origin h => by simp [hnone] at h

namespace SymbolTable.Records

variable {s s' : SymbolTable}

/-- Records stay, so only new entries have to be recorded. -/
theorem of_subset (h : Records s) (hdecls : s.decls ⊆ s'.decls) : Records { s with decls := s'.decls } where
  types := h.types.mono fun _ _ hx origin horigin => hdecls (hx origin horigin)
  methods := h.methods.mono fun _ _ hx origin horigin hkind => hdecls (hx origin horigin hkind)
  fields := h.fields.mono fun _ _ hx origin horigin => hdecls (hx origin horigin)
  properties := h.properties.mono fun _ _ hx origin horigin => hdecls (hx origin horigin)

theorem entry (h : Records s) {doc : Document} (hentry : Entry doc s s') : Records s' := by
  have hmore := h.of_subset hentry.grows.decls
  cases hentry with
  | @space c parent hplaced hkind =>
      obtain ⟨namespaces, heq⟩ := exists_ensurePath_eq s parent (writtenPath c)
      rw [heq] at hmore ⊢
      exact ⟨hmore.types, hmore.methods, hmore.fields, hmore.properties⟩
  | type hplaced hkind hinfo =>
      refine { hmore with types := hmore.types.push fun origin horigin => ?_ }
      obtain rfl := Option.some.inj (hinfo.origin?_eq.symm.trans horigin)
      exact List.mem_cons_self
  | delegate hplaced hkind hinfo =>
      refine { hmore with
        types := hmore.types.push fun origin horigin => ?_
        methods := hmore.methods.push fun origin _ hcall => absurd rfl hcall }
      obtain rfl := Option.some.inj (hinfo.origin?_eq.symm.trans horigin)
      exact List.mem_cons_self
  | method hplaced hkind hinfo =>
      refine { hmore with methods := hmore.methods.push fun origin horigin _ => ?_ }
      obtain rfl := Option.some.inj (hinfo.origin?_eq.symm.trans horigin)
      exact List.mem_cons_self
  | field hc hnode hkind howner hinfo =>
      refine { hmore with fields := hmore.fields.push fun origin horigin => ?_ }
      obtain rfl := Option.some.inj (hinfo.origin?_eq.symm.trans horigin)
      exact List.mem_cons_self
  | property hplaced hkind hinfo =>
      refine { hmore with properties := hmore.properties.push fun origin horigin => ?_ }
      obtain rfl := Option.some.inj (hinfo.origin?_eq.symm.trans horigin)
      exact List.mem_cons_self

theorem fills (h : Records s) (hfills : Fills s s') : Records s' := by
  cases hfills with
  | none => exact h
  | bases => exact { h with types := h.types.modify fun _ _ hx => hx }
  | signature => exact { h with methods := h.methods.modify fun _ _ hx => hx }
  | fieldTy => exact { h with fields := h.fields.modify fun _ _ hx => hx }
  | propertyTy => exact { h with properties := h.properties.modify fun _ _ hx => hx }

end SymbolTable.Records

theorem records_ofProject (project : Project) : (SymbolTable.ofProject project).Records :=
  ofProject_keeps records_framework (fun _ _ _ _ hentry h => h.entry hentry)
    fun _ _ hfills h => h.fills hfills

/-- What a node has to be to declare an entry of a table. -/
def SymbolTable.DeclaredBy (s : SymbolTable) (c : Cursor) : Decl → Prop
  | .space _ => c.kind.isNamespaceDeclaration = true
  | .type t => (c.kind.isTypeDeclaration = true ∨ c.kind = .enumDeclaration ∨
      c.kind = .delegateDeclaration) ∧ (s.type t).kind = typeKind c.kind ∧
        (s.type t).name = c.name?.getD ""
  | .method m => DeclaresMethod c ∧
      (c.kind = .methodDeclaration → (s.method m).name = c.name?.getD "")
  | .field f => (c.kind = .enumMemberDeclaration ∨ c.kind = .variableDeclarator) ∧
      c.name? = some (s.field f).name
  | .property p => c.kind = .propertyDeclaration ∧ c.name? = some (s.property p).name

/-- A declaration is found by its place, and the place leads to the node that
declares it. -/
structure SymbolTable.Finds (project : Project) (s : SymbolTable) (origin : Origin) (decl : Decl) :
    Prop where
  decl_eq : s.decl? origin = some decl
  node : ∃ c, nodeAt? project origin = some c ∧ origin.pointer = Pointer.of c ∧ s.DeclaredBy c decl

/-- Every record but that of a namespace is found, and leads to its node. -/
theorem finds_of_mem {project : Project} {origin : Origin} {decl : Decl}
    (h : (origin, decl) ∈ (SymbolTable.ofProject project).decls) (hspace : ∀ ns, decl ≠ .space ns) :
    (SymbolTable.ofProject project).Finds project origin decl := by
  have found {doc : Document} {c : Cursor} {decl : Decl} (hdoc : doc ∈ project.documents)
      (hc : Below doc.root c) (hnode : c.isNode = true) (hpos : 0 < c.focus.width)
      (h : (⟨doc.id, Pointer.of c⟩, decl) ∈ (SymbolTable.ofProject project).decls)
      (hdeclared : (SymbolTable.ofProject project).DeclaredBy c decl) :
      (SymbolTable.ofProject project).Finds project ⟨doc.id, Pointer.of c⟩ decl :=
    ⟨decl?_of_mem hdoc hc hnode hpos h, c,
      nodeAt?_of_resolve hdoc (resolve_tree doc hc hnode hpos), rfl, hdeclared⟩
  cases sourced_ofProject project origin decl h with
  | @space doc c parent id => exact absurd rfl (hspace id)
  | @type doc c container id hdoc hplaced hkind hinfo =>
      obtain ⟨_, hreached⟩ := hplaced.reached
      refine found hdoc hreached.below_root hreached.isNode ?_ h ⟨hkind, hinfo.kind_eq, hinfo.name_eq⟩
      exact (isFile_tree doc).width_pos_declaration hreached.below_root hreached.isNode
        (hasOwnToken_of_declaresType hkind)
  | @method doc c owner id hdoc hplaced hkind hinfo =>
      obtain ⟨_, hreached⟩ := hplaced.reached
      refine found hdoc hreached.below_root hreached.isNode ?_ h ⟨hkind, hinfo.name_eq⟩
      exact (isFile_tree doc).width_pos_declaration hreached.below_root hreached.isNode
        hkind.hasOwnToken
  | @field doc c owner id hdoc hc hnode hkind hinfo =>
      have hpos := (isFile_tree doc).width_pos_of_name hc hinfo.name_eq
      exact found hdoc hc hnode hpos h ⟨hkind, hinfo.name_eq⟩
  | @property doc c owner id hdoc hplaced hkind hinfo =>
      obtain ⟨_, hreached⟩ := hplaced.reached
      have hpos := (isFile_tree doc).width_pos_of_name hreached.below_root hinfo.name_eq
      exact found hdoc hreached.below_root hreached.isNode hpos h ⟨hkind, hinfo.name_eq⟩

/-- A recorded delegate has its call. -/
theorem exists_invoke? {project : Project} {origin : Origin} {t : TypeId}
    (h : (origin, .type t) ∈ (SymbolTable.ofProject project).decls)
    (hkind : ((SymbolTable.ofProject project).type t).kind = .delegateType) :
    ∃ m, (SymbolTable.ofProject project).invoke? t = some m := by
  cases sourced_ofProject project origin _ h with
  | @type doc c container id hdoc hplaced hdeclares hinfo hlt hcall =>
      have hdelegate : c.kind = .delegateDeclaration := by
        rw [hinfo.kind_eq] at hkind
        rcases hdeclares with hdeclares | hdeclares | hdeclares
        · cases hk : c.kind <;> simp [hk, Kind.isTypeDeclaration] at hdeclares <;>
            simp [hk, typeKind] at hkind
        · simp [hdeclares, typeKind] at hkind
        · exact hdeclares
      obtain ⟨m, hm, hinvoke, howner⟩ := hcall hdelegate
      exact ⟨m, (callsApart_ofProject project).invoke?_eq_some.mpr ⟨hm, howner, hinvoke⟩⟩

/-! ## Consistency -/

/-- What the rest of the program relies on in a table of a project. -/
structure SymbolTable.Consistent (project : Project) (s : SymbolTable) : Prop where
  /-- Every number is that of an entry, and what contains an entry stands before it. -/
  closed : s.Closed
  /-- The way out of an entry ends at the global namespace. -/
  inside_global : ∀ container : Container, container.InRange s →
    Relation.ReflTransGen s.Inside container (.space global)
  /-- Each entry is listed once, with what it belongs to. -/
  lists : s.Lists
  types : ∀ i info origin, s.types[i]? = some info → info.origin? = some origin →
    s.Finds project origin (.type ⟨i⟩)
  methods : ∀ i info origin, s.methods[i]? = some info → info.origin? = some origin →
    info.kind ≠ .invoke → s.Finds project origin (.method ⟨i⟩)
  fields : ∀ i info origin, s.fields[i]? = some info → info.origin? = some origin →
    s.Finds project origin (.field ⟨i⟩)
  properties : ∀ i info origin, s.properties[i]? = some info → info.origin? = some origin →
    s.Finds project origin (.property ⟨i⟩)
  /-- The later passes skip no record: it leads to a node, and one of a delegate to its call. -/
  records : ∀ origin decl, (origin, decl) ∈ s.decls → (∀ ns, decl ≠ .space ns) →
    s.Finds project origin decl
  calls : ∀ origin t, (origin, .type t) ∈ s.decls → (s.type t).kind = .delegateType →
    ∃ m, s.invoke? t = some m

end CSharpKit.Semantics
