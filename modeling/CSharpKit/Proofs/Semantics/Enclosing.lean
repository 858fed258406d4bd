import CSharpKit.Proofs.Semantics.Instantiation
import CSharpKit.Proofs.Semantics.Passes

/-!
# Type parameters in scope

A type that is written somewhere mentions type parameters of the declarations around it only.
So the type that a member is declared with mentions those of the type it belongs to and of the
types around this one, and that of a method its own.
-/

namespace CSharpKit

/-- Nodes that may declare type parameters, or stand for such. -/
def Syntax.Kind.opensScope : Syntax.Kind → Bool
  | .methodDeclaration | .constructorDeclaration | .classDeclaration | .structDeclaration
  | .interfaceDeclaration | .enumDeclaration | .delegateDeclaration => true
  | _ => false

namespace Semantics

open Syntax Workspace Cursor Declare

/-! ## Declarations around a node -/

/-- Whose type parameters a level of a scope brings in. -/
def Level.owner? : Level → Option ParamOwner
  | .method m => some (.method m)
  | .type t => some (.type t)
  | .space _ _ => none

/-- The types and methods whose declarations enclose a node, the innermost first. -/
def SymbolTable.enclosers (s : SymbolTable) (document : DocumentId) (c : Cursor) :
    List ParamOwner :=
  c.ancestors.filterMap fun a => (Scope.declaredLevel? s document a).bind Level.owner?

/-- The names of the type parameters of a declaration. -/
def SymbolTable.typeParamsOf (s : SymbolTable) : ParamOwner → List String
  | .type t => (s.type t).typeParams
  | .method m => (s.method m).typeParams

/-- Reached from a node through nodes that open no scope of their own. -/
def SameScope (c d : Cursor) : Prop :=
  Relation.ReflTransGen (fun p e : Cursor => e ∈ p.children ∧ e.kind.opensScope = false) c d

section

variable {s s' : SymbolTable} {document : DocumentId} {c d p e : Cursor}

theorem declaredLevel?_eq_none (h : c.kind.opensScope = false) :
    Scope.declaredLevel? s document c = none := by
  unfold Scope.declaredLevel?
  dsimp only
  split
  case h_8 => rfl
  all_goals simp_all [Kind.opensScope]

theorem enclosers_congr (h : s'.decls = s.decls) : s'.enclosers document c = s.enclosers document c := by
  simp only [SymbolTable.enclosers, Scope.declaredLevel?, SymbolTable.decl?, h]

theorem enclosers_of_mem_elements (h : e ∈ p.elements) : s.enclosers document e =
    ((Scope.declaredLevel? s document e).bind Level.owner?).toList ++ s.enclosers document p := by
  rw [SymbolTable.enclosers, ancestors_of_mem_elements h, List.filterMap_cons]
  cases (Scope.declaredLevel? s document e).bind Level.owner? <;> rfl

/-- What encloses a node encloses all below it. -/
theorem enclosers_subset (h : Below c d) : s.enclosers document c ⊆ s.enclosers document d := by
  induction h with
  | refl => exact List.Subset.refl _
  | tail _ he ih =>
      rw [enclosers_of_mem_elements he]
      exact List.Subset.trans ih (List.subset_append_right _ _)

theorem SameScope.below (h : SameScope c d) : Below c d := by
  induction h with
  | refl => exact Below.refl c
  | tail _ he ih => exact Below.element ih (mem_elements_of_mem_children he.1)

theorem SameScope.isNode (h : SameScope c d) (hc : c.isNode = true) : d.isNode = true := by
  induction h with
  | refl => exact hc
  | tail _ he _ => exact isNode_of_mem_children he.1

theorem SameScope.enclosers_eq (h : SameScope c d) :
    s.enclosers document d = s.enclosers document c := by
  induction h with
  | refl => rfl
  | tail _ he ih =>
      rw [enclosers_of_mem_elements (mem_elements_of_mem_children he.1),
        declaredLevel?_eq_none he.2, ih]
      rfl

theorem SameScope.trans (h : SameScope c d) (h' : SameScope d e) : SameScope c e :=
  Relation.ReflTransGen.trans h h'

theorem SameScope.child (h : e ∈ p.children) (hkind : e.kind.opensScope = false) : SameScope p e :=
  .single ⟨h, hkind⟩

theorem opensScope_of_isExpr {k : Kind} (h : k.isExpr = true) : k.opensScope = false := by
  unfold Kind.isExpr at h
  split at h
  case h_26 => cases h
  all_goals rfl

theorem opensScope_of_isNamespaceDeclaration {k : Kind} (h : k.isNamespaceDeclaration = true) :
    k.opensScope = false := by
  unfold Kind.isNamespaceDeclaration at h
  split at h
  case h_3 => cases h
  all_goals rfl

theorem opensScope_of_isArgumentList {k : Kind} (h : k.isArgumentList = true) :
    k.opensScope = false := by
  unfold Kind.isArgumentList at h
  split at h
  case h_3 => cases h
  all_goals rfl

theorem opensScope_of_isType {k : Kind} (h : k.isType = true) : k.opensScope = false := by
  unfold Kind.isType at h
  split at h
  case h_8 => cases h
  all_goals rfl

theorem SameScope.type (h : c.type? = some d) : SameScope c d := by
  obtain ⟨hmem, hkind⟩ := mem_children_of_childOf? h
  exact .child hmem (opensScope_of_isType hkind)

theorem SameScope.expression (h : c.expression? = some d) : SameScope c d := by
  obtain ⟨hmem, hkind⟩ := mem_children_of_childOf? h
  exact .child hmem (opensScope_of_isExpr hkind)

theorem SameScope.ofKind {k : Kind} (h : d ∈ c.childrenOfKind k) (hk : k.opensScope = false) :
    SameScope c d := by
  obtain ⟨hmem, hkind⟩ := mem_children_of_mem_childrenOfKind h
  exact .child hmem (by rwa [hkind])

theorem SameScope.child? {k : Kind} (h : c.child? k = some d) (hk : k.opensScope = false) :
    SameScope c d := by
  obtain ⟨hmem, hkind⟩ := mem_children_of_child? h
  exact .child hmem (by rwa [hkind])

theorem SameScope.unparenthesized (c : Cursor) : SameScope c c.unparenthesized := by
  unfold Cursor.unparenthesized
  generalize c.focus.depth = fuel
  induction fuel generalizing c with
  | zero => exact .refl
  | succ fuel ih =>
      rw [unwrapParens]
      split
      · split
        · next inner hinner => exact (SameScope.expression hinner).trans (ih inner)
        · exact .refl
      · exact .refl

theorem SameScope.argument (h : d ∈ c.arguments) : SameScope c d := by
  obtain ⟨list, hlist, hmem⟩ : ∃ list, c.argumentList? = some list ∧ d ∈ list.listedArguments := by
    cases hlist : c.argumentList? with
    | none => simp [arguments, hlist] at h
    | some list => exact ⟨list, rfl, by simpa [arguments, hlist] using h⟩
  obtain ⟨hchild, hkind⟩ := mem_children_of_childOf? hlist
  have hlist : SameScope c list := .child hchild (opensScope_of_isArgumentList hkind)
  exact hlist.trans (.ofKind hmem rfl)

theorem SameScope.parameter (h : d ∈ c.parameters) : SameScope c d := by
  obtain ⟨list, hlist, hlistKind, hmem, hkind⟩ := Model.mem_of_mem_parameters h
  have hout : SameScope c list := .child hlist (by rw [hlistKind]; rfl)
  exact hout.trans (.child hmem (by rw [hkind]; rfl))

theorem SameScope.lambdaParameter (h : d ∈ c.lambdaParameters) : SameScope c d := by
  unfold lambdaParameters at h
  split at h
  · exact .ofKind h rfl
  · exact .parameter h

theorem sameScope_of_mem_fieldDeclarators (h : d ∈ fieldDeclarators c) : SameScope c d := by
  unfold fieldDeclarators at h
  cases hvars : c.variableDeclaration? with
  | none => simp [hvars] at h
  | some vars =>
      rw [hvars] at h
      have hout : SameScope c vars := .child? hvars rfl
      exact hout.trans (.ofKind h rfl)

end

/-! ## Written types -/

namespace Ty

theorem mem_paramsAll {p : ParamOwner × Nat} {ts : List Ty} :
    p ∈ paramsAll ts ↔ ∃ t ∈ ts, p ∈ t.params := by
  induction ts with
  | nil => simp [paramsAll]
  | cons t ts ih => simp [paramsAll, ih]

/-- All type parameters in a type have a property. -/
def Mentions (O : ParamOwner × Nat → Prop) (t : Ty) : Prop := ∀ p ∈ t.params, O p

variable {O O' : ParamOwner × Nat → Prop} {t : Ty}

theorem Mentions.imp (h : t.Mentions O) (himp : ∀ p, O p → O' p) : t.Mentions O' :=
  fun p hp => himp p (h p hp)

theorem mentions_of_params_eq (h : t.params = []) : t.Mentions O := fun p hp => by simp [h] at hp

theorem mentions_named {d : TypeId} {as : List Ty} :
    (named d as).Mentions O ↔ ∀ a ∈ as, a.Mentions O := by
  simp only [Mentions, params, mem_paramsAll]
  exact ⟨fun h a ha p hp => h p ⟨a, ha, hp⟩, fun h p ⟨a, ha, hp⟩ => h a ha p hp⟩

theorem formed_mentions (s : SymbolTable) (O : ParamOwner × Nat → Prop) :
    Formed s (Mentions O) where
  error _ := mentions_of_params_eq rfl
  void := mentions_of_params_eq rfl
  plain _ := mentions_of_params_eq rfl
  given _ hbs := mentions_named.mpr hbs
  array h _ := h
  nullable h := h

end Ty

/-- A type parameter is one of a declaration that encloses a node. -/
def SymbolTable.InScope (s : SymbolTable) (document : DocumentId) (c : Cursor)
    (p : ParamOwner × Nat) : Prop :=
  p.1 ∈ s.enclosers document c ∧ p.2 < (s.typeParamsOf p.1).length

section

variable (s : SymbolTable) (document : DocumentId) (at_ : Cursor)

/-- All that a scope can add to a type is in scope. -/
theorem holds_inScope : (Scope.at_ s document at_).Holds (Ty.Mentions (s.InScope document at_)) := by
  apply Scope.at_holds_of_declared (Ty.formed_mentions s _)
  intro a ha level hlevel
  have mentions {owner : ParamOwner} {i : Nat} {n : String} (howner : level.owner? = some owner)
      (hi : (s.typeParamsOf owner)[i]? = some n) :
      (Ty.param owner i n).Mentions (s.InScope document at_) := by
    intro p hp
    obtain rfl : p = (owner, i) := List.mem_singleton.mp hp
    refine ⟨List.mem_filterMap.mpr ⟨a, ha, ?_⟩, (List.getElem?_eq_some_iff.mp hi).1⟩
    rw [hlevel, Option.bind_some, howner]
  rcases Scope.declaredLevel?_eq_some hlevel with ⟨m, -, rfl⟩ | ⟨t, -, rfl⟩
  · exact fun i n hi => mentions rfl hi
  · exact fun i n hi => mentions rfl hi

/-- A type that is written at a node mentions type parameters in scope only. -/
theorem resolveType_inScope (c : Cursor) :
    ((Scope.at_ s document at_).resolveType c).Mentions (s.InScope document at_) :=
  (Scope.within_holds (Ty.formed_mentions s _) (holds_inScope s document at_) _).1 c

end

/-! ## Types around a type -/

/-- A type is another one or is nested in it, directly or through others. -/
def SymbolTable.NestedIn (s : SymbolTable) : TypeId → TypeId → Prop :=
  Relation.ReflTransGen fun t outer => (s.type t).container = .type outer

/-- A declaration is a type or one that this type is nested in. -/
def SymbolTable.Around (s : SymbolTable) (t : TypeId) (owner : ParamOwner) : Prop :=
  ∃ outer, owner = .type outer ∧ s.NestedIn t outer

theorem nestedIn_iff {s : SymbolTable} {t outer : TypeId} : s.NestedIn t outer ↔
    t = outer ∨ ∃ u, (s.type t).container = .type u ∧ s.NestedIn u outer :=
  Relation.ReflTransGen.cases_head_iff

theorem around_iff {s : SymbolTable} {t : TypeId} {owner : ParamOwner} :
    s.Around t owner ↔ owner = .type t ∨ ∃ u, (s.type t).container = .type u ∧ s.Around u owner := by
  constructor
  · rintro ⟨outer, rfl, h⟩
    rcases nestedIn_iff.mp h with rfl | ⟨u, hu, h⟩
    · exact .inl rfl
    · exact .inr ⟨u, hu, outer, rfl, h⟩
  · rintro (rfl | ⟨u, hu, outer, rfl, h⟩)
    · exact ⟨t, rfl, .refl⟩
    · exact ⟨outer, rfl, nestedIn_iff.mpr (.inr ⟨u, hu, h⟩)⟩

section

variable {project : Project} {doc : Document} {c : Cursor}

/-- Outside of types no declaration encloses what stands around a node. -/
theorem enclosers_of_reached {s : SymbolTable} (h : Reached doc.root false c) :
    s.enclosers doc.id c = ((Scope.declaredLevel? s doc.id c).bind Level.owner?).toList := by
  have around {p c : Cursor} (hc : c ∈ p.members) (hp : p.kind.opensScope = false)
      (hout : s.enclosers doc.id p = ((Scope.declaredLevel? s doc.id p).bind Level.owner?).toList) :
      s.enclosers doc.id c = ((Scope.declaredLevel? s doc.id c).bind Level.owner?).toList := by
    have hmem := mem_elements_of_mem_children (mem_children_of_mem_childrenOf hc).1
    rw [enclosers_of_mem_elements hmem, hout, declaredLevel?_eq_none hp]
    exact List.append_nil _
  generalize hin : false = inType at h
  induction h with
  | top hc =>
      apply around hc
      · rw [kind_root]
        rfl
      · exact List.filterMap_cons
  | @space p c hp hkind hc ih =>
      refine around hc ?_ (ih hin)
      exact opensScope_of_isNamespaceDeclaration hkind
  | type => cases hin

theorem declaredLevel?_type {s : SymbolTable} {document : DocumentId} {t : TypeId}
    (hkind : c.kind.isTypeDeclaration = true ∨ c.kind = .enumDeclaration ∨
      c.kind = .delegateDeclaration)
    (h : s.decl? ⟨document, Pointer.of c⟩ = some (.type t)) :
    Scope.declaredLevel? s document c = some (.type t) := by
  unfold Scope.declaredLevel?
  dsimp only
  split
  case h_3 | h_4 | h_5 | h_6 | h_7 => rw [h]
  all_goals simp_all [Kind.isTypeDeclaration]

theorem declaredLevel?_method {s : SymbolTable} {document : DocumentId} {m : MethodId}
    (hkind : DeclaresMethod c) (h : s.decl? ⟨document, Pointer.of c⟩ = some (.method m)) :
    Scope.declaredLevel? s document c = some (.method m) := by
  rcases hkind with hkind | hkind <;> simp only [Scope.declaredLevel?, hkind, h]

/-- What encloses the declaration of a type is the type and what is around it. -/
theorem mem_enclosers_type {inType : Bool} {t : TypeId} {owner : ParamOwner}
    (hdoc : doc ∈ project.documents) (hc : Reached doc.root inType c)
    (hkind : c.kind.isTypeDeclaration = true ∨ c.kind = .enumDeclaration ∨
      c.kind = .delegateDeclaration)
    (h : (⟨doc.id, Pointer.of c⟩, .type t) ∈ (SymbolTable.ofProject project).decls) :
    owner ∈ (SymbolTable.ofProject project).enclosers doc.id c ↔
      (SymbolTable.ofProject project).Around t owner := by
  induction hn : t.num using Nat.strongRecOn generalizing t c inType with
  | ind n ih =>
      have hpos := (isFile_tree doc).width_pos_declaration hc.below_root hc.isNode
        (hasOwnToken_of_declaresType hkind)
      have hlevel := declaredLevel?_type hkind (decl?_of_mem hdoc hc.below_root hc.isNode hpos h)
      generalize horigin : Origin.mk doc.id (Pointer.of c) = origin at h
      cases sourced_ofProject project _ _ h with
      | @type doc' c' container _ hdoc' hplaced hkind' hinfo hlt hcall =>
          obtain ⟨_, hreached⟩ := hplaced.reached
          obtain ⟨rfl, rfl⟩ := eq_of_origin_eq hdoc hc.below_root hc.isNode hpos hdoc'
            hreached.below_root hreached.isNode horigin
          rw [around_iff, hinfo.container_eq]
          cases hplaced with
          | space hout hrecord =>
              rw [enclosers_of_reached hout, hlevel]
              simp [Level.owner?]
          | @type _ outer p _ hp htype hmem hrecord =>
              have hprecedes := ((closed_ofProject project).type_inRange hlt).container
              rw [hinfo.container_eq] at hprecedes
              have houter := ih outer.num (hn ▸ hprecedes) hp (.inl htype) hrecord rfl
              rw [enclosers_of_mem_elements (mem_elements_of_mem_children
                (mem_children_of_mem_childrenOf hmem).1), hlevel]
              simp [Level.owner?, houter]

/-- What encloses a member of a type is what the member opens itself, and what is around the
type. -/
theorem mem_enclosers_of_placed {t : TypeId} {owner : ParamOwner} (hdoc : doc ∈ project.documents)
    (h : Placed doc (.ofProject project) (.type t) c) :
    owner ∈ (SymbolTable.ofProject project).enclosers doc.id c ↔
      (Scope.declaredLevel? (.ofProject project) doc.id c).bind Level.owner? = some owner ∨
        (SymbolTable.ofProject project).Around t owner := by
  cases h with
  | type hp hkind hmem hrecord =>
      rw [enclosers_of_mem_elements (mem_elements_of_mem_children
        (mem_children_of_mem_childrenOf hmem).1), List.mem_append, Option.mem_toList,
        mem_enclosers_type hdoc hp (.inl hkind) hrecord]

/-- What encloses the declaration of a method is the method and what is around its type. -/
theorem mem_enclosers_method {m : MethodId} {owner : ParamOwner} (hdoc : doc ∈ project.documents)
    (hc : Below doc.root c) (hnode : c.isNode = true) (hkind : DeclaresMethod c)
    (h : (SymbolTable.ofProject project).decl? ⟨doc.id, Pointer.of c⟩ = some (.method m)) :
    owner ∈ (SymbolTable.ofProject project).enclosers doc.id c ↔ owner = .method m ∨
      (SymbolTable.ofProject project).Around ((SymbolTable.ofProject project).method m).owner owner := by
  have hpos := (isFile_tree doc).width_pos_declaration hc hnode hkind.hasOwnToken
  have hmem := SymbolTable.mem_of_decl? h
  have hlevel := declaredLevel?_method hkind h
  generalize horigin : Origin.mk doc.id (Pointer.of c) = origin at hmem
  cases sourced_ofProject project _ _ hmem with
  | @method doc' c' t _ hdoc' hplaced hkind' hinfo =>
      obtain ⟨_, hreached⟩ := hplaced.reached
      obtain ⟨rfl, rfl⟩ := eq_of_origin_eq hdoc hc hnode hpos hdoc' hreached.below_root
        hreached.isNode horigin
      rw [mem_enclosers_of_placed hdoc hplaced, hlevel, hinfo.owner_eq]
      simp [Level.owner?, eq_comm]

end

/-! ## Types of members -/

/-- The types in the signature of a method. -/
def MethodInfo.types (info : MethodInfo) : List Ty := info.returnTy :: info.params.map (·.ty)

/-- A type parameter of a method itself, or of a type around it. -/
def SymbolTable.OfMethod (s : SymbolTable) (m : MethodId) (p : ParamOwner × Nat) : Prop :=
  p.1 = .method m ∧ p.2 < (s.method m).typeParams.length ∨ s.Around (s.method m).owner p.1

/-- The types of members mention type parameters of what they are declared in. -/
structure SymbolTable.Confined (s : SymbolTable) : Prop where
  methods : ∀ m, ∀ ty ∈ (s.method m).types, ty.Mentions (s.OfMethod m)
  fields : ∀ f, (s.field f).ty.Mentions fun p => s.Around (s.field f).owner p.1
  properties : ∀ p, (s.property p).ty.Mentions fun q => s.Around (s.property p).owner q.1

/-- The types of members mention type parameters of their own type, or of the method itself. -/
structure SymbolTable.OwnParams (s : SymbolTable) : Prop where
  methods : EachEntry (fun i info => ∀ ty ∈ info.types, ty.Mentions fun p =>
    p.1 = .method ⟨i⟩ ∧ p.2 < info.typeParams.length ∨ p.1 = .type info.owner) s.methods
  fields : EachEntry (fun _ info => info.ty.Mentions fun p => p.1 = .type info.owner) s.fields
  properties : EachEntry (fun _ info => info.ty.Mentions fun p => p.1 = .type info.owner)
    s.properties

section

instance {O : ParamOwner × Nat → Prop} [DecidablePred O] (t : Ty) : Decidable (t.Mentions O) :=
  inferInstanceAs (Decidable (∀ p ∈ t.params, O p))

variable {s s' : SymbolTable} {project : Project}

theorem ownParams_framework : Framework.table.OwnParams where
  methods := by decide +kernel
  fields := by decide +kernel
  properties := by decide +kernel

/-- Nothing is resolved in the first pass. -/
theorem SymbolTable.OwnParams.entry {doc : Document} (h : s.OwnParams) (hentry : Entry doc s s') :
    s'.OwnParams := by
  cases hentry with
  | space =>
      exact enterSpace_keeps (P := SymbolTable.OwnParams) fun _ => ⟨h.methods, h.fields, h.properties⟩
  | type => exact ⟨h.methods, h.fields, h.properties⟩
  | delegate =>
      refine ⟨h.methods.push fun ty hty => ?_, h.fields, h.properties⟩
      obtain rfl := List.mem_singleton.mp hty
      exact Ty.mentions_of_params_eq rfl
  | method hplaced hkind hinfo hbare =>
      refine ⟨h.methods.push fun ty hty => ?_, h.fields, h.properties⟩
      rw [MethodInfo.types, hbare.1, hbare.2] at hty
      obtain rfl := List.mem_singleton.mp hty
      exact Ty.mentions_of_params_eq rfl
  | field hc hnode hkind howner hinfo hty =>
      refine ⟨h.methods, h.fields.push ?_, h.properties⟩
      rcases hty with hty | hty <;> rw [hty] <;> exact Ty.mentions_of_params_eq rfl
  | property hplaced hkind hinfo hty =>
      refine ⟨h.methods, h.fields, h.properties.push ?_⟩
      rw [hty]
      exact Ty.mentions_of_params_eq rfl

/-- Only base types are resolved in the second pass. -/
theorem ownParams_based (project : Project) : (SymbolTable.based project).OwnParams := by
  refine eachDecl_keeps (fun s origin decl h => ?_)
    (entered_keeps ownParams_framework fun _ _ _ _ hentry h => h.entry hentry)
  rcases resolveBases_cases project s origin decl with heq | ⟨t, c, -, -, -, heq⟩
  · rw [heq]
    exact h
  · rw [heq]
    exact ⟨h.methods, h.fields, h.properties⟩

theorem SymbolTable.OwnParams.confined (h : s.OwnParams) : s.Confined where
  methods m ty hty := by
    cases hm : s.methods[m.num]? with
    | none =>
        rw [SymbolTable.method, hm] at hty
        obtain rfl := List.mem_singleton.mp hty
        exact Ty.mentions_of_params_eq rfl
    | some info =>
        have heq : s.method m = info := by rw [SymbolTable.method, hm]; rfl
        refine (h.methods m.num info hm ty (heq ▸ hty)).imp fun p hp => ?_
        rw [SymbolTable.OfMethod, heq]
        exact hp.imp_right fun howner => ⟨_, howner, .refl⟩
  fields f := by
    cases hf : s.fields[f.num]? with
    | none => exact Ty.mentions_of_params_eq (by rw [SymbolTable.field, hf]; rfl)
    | some info =>
        have heq : s.field f = info := by rw [SymbolTable.field, hf]; rfl
        rw [heq]
        exact (h.fields f.num info hf).imp fun p howner => ⟨_, howner, .refl⟩
  properties q := by
    cases hq : s.properties[q.num]? with
    | none => exact Ty.mentions_of_params_eq (by rw [SymbolTable.property, hq]; rfl)
    | some info =>
        have heq : s.property q = info := by rw [SymbolTable.property, hq]; rfl
        rw [heq]
        exact (h.properties q.num info hq).imp fun p howner => ⟨_, howner, .refl⟩

/-- The call of a delegate has no type parameters of its own. -/
def SymbolTable.CallsPlain (s : SymbolTable) : Prop :=
  EachEntry (fun _ info => info.kind = .invoke → info.typeParams = []) s.methods

theorem SymbolTable.CallsPlain.entry {doc : Document} (h : s.CallsPlain) (hentry : Entry doc s s') :
    s'.CallsPlain := by
  cases hentry with
  | space => exact enterSpace_keeps (P := SymbolTable.CallsPlain) fun _ => h
  | type | field | property => exact h
  | delegate => exact EachEntry.push h fun _ => rfl
  | method hplaced hkind hinfo => exact EachEntry.push h fun hinvoke => absurd hinvoke hinfo.kind_ne

theorem SymbolTable.CallsPlain.typeParams_eq (h : s.CallsPlain) {t : TypeId} {m : MethodId}
    (hm : s.invoke? t = some m) : (s.method m).typeParams = [] := by
  obtain ⟨hlt, -, hkind⟩ := SymbolTable.mem_methodsOf.mp (List.mem_of_getLast? hm)
  refine h m.num _ ?_ hkind
  simp [SymbolTable.method, hlt]

theorem callsPlain_ofProject (project : Project) : (SymbolTable.ofProject project).CallsPlain := by
  refine ofProject_keeps ?_ (fun _ _ _ _ hentry h => h.entry hentry) fun s s' hfills h => ?_
  · unfold SymbolTable.CallsPlain
    decide +kernel
  · cases hfills with
    | signature => exact EachEntry.modify h fun _ _ hx => hx
    | none | bases | fieldTy | propertyTy => exact h

/-! ## The third pass -/

/-- What a visit of the third pass fills in: types that are written at the node of a record. -/
inductive Signs (s : SymbolTable) (document : DocumentId) (c : Cursor) (decl : Decl) :
    SymbolTable → Prop
  | none : Signs s document c decl s
  | signature {m : MethodId} {params : List ParameterInfo} {returnTy : Ty}
      (hm : decl = .method m ∨ ∃ t, decl = .type t ∧ s.invoke? t = some m)
      (htypes : ∀ ty ∈ returnTy :: params.map (·.ty), ty.Mentions (s.InScope document c)) :
      Signs s document c decl (s.setSignature m params returnTy)
  | field {f : FieldId} {ty : Ty} (hf : decl = .field f)
      (hlisted : ∃ vars, c.parent? = some vars ∧ vars.kind = .variableDeclaration)
      (hty : ty.Mentions (s.InScope document c)) : Signs s document c decl (s.setFieldTy f ty)
  | property {p : PropertyId} {ty : Ty} (hp : decl = .property p)
      (hty : ty.Mentions (s.InScope document c)) : Signs s document c decl (s.setPropertyTy p ty)

theorem signs_resolveSignature {origin : Origin} {decl : Decl} {c : Cursor}
    (hc : nodeAt? project origin = some c) :
    Signs s origin.document c decl (resolveSignature project s origin decl) := by
  have hreturn : ((c.type?.map (Scope.at_ s origin.document c).resolveType).getD .void).Mentions
      (s.InScope origin.document c) := by
    cases c.type? with
    | none => exact Ty.mentions_of_params_eq rfl
    | some written => exact resolveType_inScope s origin.document c written
  have hparams : ∀ ty ∈ (parameterInfos (Scope.at_ s origin.document c) origin.document c).map
      (·.ty), ty.Mentions (s.InScope origin.document c) := by
    intro ty hty
    simp only [parameterInfos, List.map_map, List.mem_map] at hty
    obtain ⟨param, -, rfl⟩ := hty
    dsimp only [Function.comp_apply]
    cases param.type? with
    | none => exact Ty.mentions_of_params_eq rfl
    | some written => exact resolveType_inScope s origin.document c written
  unfold resolveSignature
  rw [hc]
  dsimp only
  split
  · next t _ =>
    split
    · next invoke hinvoke =>
      exact .signature (.inr ⟨t, rfl, hinvoke⟩) (List.forall_mem_cons.mpr ⟨hreturn, hparams⟩)
    · exact .none
  · exact .signature (.inl rfl) (List.forall_mem_cons.mpr ⟨hreturn, hparams⟩)
  · exact .signature (.inl rfl)
      (List.forall_mem_cons.mpr ⟨Ty.mentions_of_params_eq rfl, hparams⟩)
  · split
    · next written hwritten =>
      obtain ⟨vars, hvars, -⟩ := Option.bind_eq_some_iff.mp hwritten
      obtain ⟨hparent, hkind⟩ := Option.filter_eq_some_iff.mp hvars
      exact .field rfl ⟨vars, hparent, beq_iff_eq.mp hkind⟩
        (resolveType_inScope s origin.document c written)
    · exact .none
  · split
    · next written _ => exact .property rfl (resolveType_inScope s origin.document c written)
    · exact .none
  · exact .none

theorem getD_modify {α : Type} [Inhabited α] (a : Array α) (i j : Nat) (f : α → α) :
    ((a.modify i f)[j]?).getD default = (a[j]?).getD default ∨
      i = j ∧ ((a.modify i f)[j]?).getD default = f ((a[j]?).getD default) := by
  rw [Array.getElem?_modify]
  split
  · next hij =>
    cases a[j]? with
    | none => exact .inl rfl
    | some x => exact .inr ⟨hij, rfl⟩
  · exact .inl rfl

/-- A visit keeps members confined if what is in scope at its node is what its member may
mention. -/
theorem SymbolTable.Confined.signs {document : DocumentId} {c : Cursor} {decl : Decl}
    (h : s.Confined) (hsigns : Signs s document c decl s')
    (hmethod : ∀ m, decl = .method m ∨ (∃ t, decl = .type t ∧ s.invoke? t = some m) →
      ∀ p, s.InScope document c p → s.OfMethod m p)
    (hfield : ∀ f, decl = .field f →
      (∃ vars, c.parent? = some vars ∧ vars.kind = .variableDeclaration) →
      ∀ p, s.InScope document c p → s.Around (s.field f).owner p.1)
    (hproperty : ∀ q, decl = .property q →
      ∀ p, s.InScope document c p → s.Around (s.property q).owner p.1) : s'.Confined := by
  cases hsigns with
  | none => exact h
  | @signature m params returnTy hm htypes =>
      refine ⟨fun k ty hty => ?_, h.fields, h.properties⟩
      rcases getD_modify s.methods m.num k.num ({ · with params, returnTy }) with heq | ⟨hk, heq⟩
      · replace heq : (s.setSignature m params returnTy).method k = s.method k := heq
        rw [heq] at hty
        refine (h.methods k ty hty).imp fun p hp => ?_
        rwa [SymbolTable.OfMethod, heq]
      · obtain rfl : m = k := congrArg MethodId.mk hk
        replace heq : (s.setSignature m params returnTy).method m =
          { s.method m with params, returnTy } := heq
        rw [heq] at hty
        refine (htypes ty hty).imp fun p hp => ?_
        have hof := hmethod m hm p hp
        rw [SymbolTable.OfMethod, heq]
        exact hof
  | @field f ty hf hlisted hty =>
      refine ⟨h.methods, fun g => ?_, h.properties⟩
      rcases getD_modify s.fields f.num g.num ({ · with ty }) with heq | ⟨hg, heq⟩
      · replace heq : (s.setFieldTy f ty).field g = s.field g := heq
        rw [heq]
        exact h.fields g
      · obtain rfl : f = g := congrArg FieldId.mk hg
        replace heq : (s.setFieldTy f ty).field f = { s.field f with ty } := heq
        rw [heq]
        exact hty.imp (hfield f hf hlisted)
  | @property q ty hq hty =>
      refine ⟨h.methods, h.fields, fun r => ?_⟩
      rcases getD_modify s.properties q.num r.num ({ · with ty }) with heq | ⟨hr, heq⟩
      · replace heq : (s.setPropertyTy q ty).property r = s.property r := heq
        rw [heq]
        exact h.properties r
      · obtain rfl : q = r := congrArg PropertyId.mk hr
        replace heq : (s.setPropertyTy q ty).property q = { s.property q with ty } := heq
        rw [heq]
        exact hty.imp (hproperty q hq)

end

/-! ## Scopes of members -/

section

variable {project : Project} {s : SymbolTable} {origin : Origin} {c : Cursor} {p : ParamOwner × Nat}

theorem around_congr {s' : SymbolTable} (h : s'.types = s.types) : s'.Around = s.Around := by
  unfold SymbolTable.Around SymbolTable.NestedIn SymbolTable.type
  rw [h]

theorem nodeAt?_eq {doc : Document} {node : Cursor} (hdoc : doc ∈ project.documents)
    (hbelow : Below doc.root node) (hnode : node.isNode = true) (hpos : 0 < node.focus.width)
    (hc : nodeAt? project ⟨doc.id, Pointer.of node⟩ = some c) : c = node :=
  Option.some.inj (hc.symm.trans (nodeAt?_of_resolve hdoc (resolve_tree doc hbelow hnode hpos)))

/-- A table of the third pass: what is recorded and the types stay as they are. -/
structure Signing (project : Project) (s : SymbolTable) : Prop where
  sourced : Sourced project s
  types : s.types = (SymbolTable.ofProject project).types
  decls : s.decls = (SymbolTable.ofProject project).decls

theorem Signing.placed (hs : Signing project s) {doc : Document} {container : Container}
    (h : Placed doc s container c) : Placed doc (.ofProject project) container c :=
  h.mono (hs.decls ▸ List.Subset.refl _)

/-- What is in scope at a method belongs to the method or to a type around it. -/
theorem Signing.ofMethod (hs : Signing project s) (hc : nodeAt? project origin = some c)
    {m : MethodId} (hmem : (origin, .method m) ∈ s.decls)
    (hp : s.InScope origin.document c p) : s.OfMethod m p := by
  obtain ⟨howner, hlt⟩ := hp
  rw [enclosers_congr hs.decls] at howner
  cases hs.sourced _ _ hmem with
  | @method doc node owner _ hdoc hplaced hkind hinfo =>
      obtain ⟨_, hreached⟩ := hplaced.reached
      have hpos := (isFile_tree doc).width_pos_declaration hreached.below_root hreached.isNode
        hkind.hasOwnToken
      obtain rfl := nodeAt?_eq hdoc hreached.below_root hreached.isNode hpos hc
      have hdecl := decl?_of_mem hdoc hreached.below_root hreached.isNode hpos (hs.decls ▸ hmem)
      rw [mem_enclosers_of_placed hdoc (hs.placed hplaced), declaredLevel?_method hkind hdecl,
        Option.bind_some] at howner
      rcases howner with howner | howner
      · replace howner : p.1 = .method m := (Option.some.inj howner).symm
        rw [howner] at hlt
        exact .inl ⟨howner, hlt⟩
      · rw [← around_congr hs.types, ← hinfo.owner_eq] at howner
        exact .inr howner

/-- What is in scope at a delegate belongs to the delegate or to a type around it. -/
theorem Signing.ofCall (hs : Signing project s) (hc : nodeAt? project origin = some c)
    {t : TypeId} {m : MethodId} (hmem : (origin, .type t) ∈ s.decls) (hm : s.invoke? t = some m)
    (hp : s.InScope origin.document c p) : s.OfMethod m p := by
  have howner := hp.1
  rw [enclosers_congr hs.decls] at howner
  cases hs.sourced _ _ hmem with
  | @type doc node container _ hdoc hplaced hkind hinfo =>
      obtain ⟨_, hreached⟩ := hplaced.reached
      have hpos := (isFile_tree doc).width_pos_declaration hreached.below_root hreached.isNode
        (hasOwnToken_of_declaresType hkind)
      obtain rfl := nodeAt?_eq hdoc hreached.below_root hreached.isNode hpos hc
      rw [mem_enclosers_type hdoc hreached hkind (hs.decls ▸ hmem), ← around_congr hs.types,
        ← (SymbolTable.mem_methodsOf.mp (List.mem_of_getLast? hm)).2.1] at howner
      exact .inr howner

/-- What is in scope at a variable of a field belongs to the type of the field or to one around
it. -/
theorem Signing.ofField (hs : Signing project s) (hc : nodeAt? project origin = some c)
    {f : FieldId} (hmem : (origin, .field f) ∈ s.decls)
    (hvars : ∃ vars, c.parent? = some vars ∧ vars.kind = .variableDeclaration)
    (hp : s.InScope origin.document c p) : s.Around (s.field f).owner p.1 := by
  have howner := hp.1
  rw [enclosers_congr hs.decls] at howner
  cases hs.sourced _ _ hmem with
  | @field doc node owner _ hdoc hbelow hnode hkind hinfo hlt hlisted =>
      have hpos := (isFile_tree doc).width_pos_of_name hbelow hinfo.name_eq
      obtain rfl := nodeAt?_eq hdoc hbelow hnode hpos hc
      cases hlisted with
      | @value d henum hmem =>
          obtain ⟨vars, hparent, hvarsKind⟩ := hvars
          have hup := parent?_of_mem_elements
            (mem_elements_of_mem_children (mem_children_of_mem_childrenOfKind hmem).1)
          obtain rfl : vars = d := Option.some.inj (hparent.symm.trans hup)
          rw [hvarsKind] at henum
          cases henum
      | @declared d hplaced hfield hmem =>
          rw [(sameScope_of_mem_fieldDeclarators hmem).enclosers_eq,
            mem_enclosers_of_placed hdoc (hs.placed hplaced),
            declaredLevel?_eq_none (by rw [hfield]; rfl), ← around_congr hs.types,
            ← hinfo.owner_eq] at howner
          exact howner.resolve_left nofun

/-- What is in scope at a property belongs to the type of the property or to one around it. -/
theorem Signing.ofProperty (hs : Signing project s) (hc : nodeAt? project origin = some c)
    {q : PropertyId} (hmem : (origin, .property q) ∈ s.decls)
    (hp : s.InScope origin.document c p) : s.Around (s.property q).owner p.1 := by
  have howner := hp.1
  rw [enclosers_congr hs.decls] at howner
  cases hs.sourced _ _ hmem with
  | @property doc node owner _ hdoc hplaced hkind hinfo =>
      obtain ⟨_, hreached⟩ := hplaced.reached
      have hpos := (isFile_tree doc).width_pos_of_name hreached.below_root hinfo.name_eq
      obtain rfl := nodeAt?_eq hdoc hreached.below_root hreached.isNode hpos hc
      rw [mem_enclosers_of_placed hdoc (hs.placed hplaced),
        declaredLevel?_eq_none (by rw [hkind]; rfl), ← around_congr hs.types,
        ← hinfo.owner_eq] at howner
      exact howner.resolve_left nofun

/-- The types of all members of a project mention only type parameters of what the members are
declared in. -/
theorem confined_ofProject (project : Project) : (SymbolTable.ofProject project).Confined := by
  suffices h : Signing project (.ofProject project) ∧ (SymbolTable.ofProject project).Confined from h.2
  refine eachDecl_keeps_of_mem (P := fun s => Signing project s ∧ s.Confined) ?_
    ⟨⟨sourced_based project, (types_ofProject project).symm, (decls_ofProject project).symm⟩,
      (ownParams_based project).confined⟩
  rintro origin decl hmem s ⟨hs, hconfined⟩
  have hfills := fills_resolveSignature project s origin decl
  refine ⟨⟨fun origin' decl' hmem' => ?_, ?_, hfills.decls_eq.trans hs.decls⟩, ?_⟩
  · rw [hfills.decls_eq] at hmem'
    exact (hs.sourced origin' decl' hmem').mono hfills.grows
  · exact (resolveSignature_keeps project s origin decl).1.trans hs.types
  · have hmem' : (origin, decl) ∈ s.decls := by rwa [hs.decls, decls_ofProject]
    cases hc : nodeAt? project origin with
    | none =>
        rw [resolveSignature, hc]
        exact hconfined
    | some c =>
        refine hconfined.signs (signs_resolveSignature hc) ?_ ?_ ?_
        · rintro m (rfl | ⟨t, rfl, hinvoke⟩) p hp
          · exact hs.ofMethod hc hmem' hp
          · exact hs.ofCall hc hmem' hinvoke hp
        · rintro f rfl hvars p hp
          exact hs.ofField hc hmem' hvars hp
        · rintro q rfl p hp
          exact hs.ofProperty hc hmem' hp

end

end Semantics

end CSharpKit
