import CSharpKit.Proofs.Semantics.Enclosing

/-!
# Types of expressions and the scopes of their parameters

What an expression writes is read in scope, so its type mentions type parameters of the
declarations around it. The type of a member is seen through a receiver, whose arguments stand
for the parameters of its own definition only. Parameters of another type are left open where
the member comes from a base class or belongs to a nested type, or where there is no receiver.
They are the only ones that get out of their scope.
-/

namespace CSharpKit.Semantics

open Syntax Workspace Cursor Declare

/-! ## Replacement -/

namespace Ty

variable {O : ParamOwner × Nat → Prop} {values : ParamOwner → List Ty}

mutual

/-- What remains of a type whose parameters are replaced, and what takes their places. -/
theorem mentions_instantiate (hvalues : ∀ owner, ∀ a ∈ values owner, a.Mentions O) : ∀ t : Ty,
    (∀ p ∈ t.params, (values p.1)[p.2]? = none → O p) → (t.instantiate values).Mentions O
  | .named d as, h => mentions_named.mpr (mentions_instantiateAll hvalues as h)
  | .param o i n, h => by
      rw [instantiate]
      cases ha : (values o)[i]? with
      | none =>
          intro p hp
          obtain rfl : p = (o, i) := List.mem_singleton.mp hp
          exact h _ (List.mem_singleton_self _) ha
      | some a => exact hvalues o a (List.mem_of_getElem? ha)
  | .array e r, h => mentions_instantiate hvalues e h
  | .nullable t, h => mentions_instantiate hvalues t h
  | .void, _ | .null, _ | .error _, _ => mentions_of_params_eq rfl

theorem mentions_instantiateAll (hvalues : ∀ owner, ∀ a ∈ values owner, a.Mentions O) :
    ∀ ts : List Ty, (∀ p ∈ paramsAll ts, (values p.1)[p.2]? = none → O p) →
      ∀ a ∈ instantiateAll values ts, a.Mentions O
  | [], _ => List.forall_mem_nil _
  | t :: ts, h => List.forall_mem_cons.mpr
      ⟨mentions_instantiate hvalues t fun p hp => h p (List.mem_append_left _ hp),
        mentions_instantiateAll hvalues ts fun p hp => h p (List.mem_append_right _ hp)⟩

end

/-- A type seen through a receiver mentions what the receiver mentions, and what it leaves open. -/
theorem mentions_through? {receiver? : Option Ty} (hreceiver : ∀ r ∈ receiver?, r.Mentions O)
    (t : Ty) (h : ∀ p ∈ t.params,
      (∀ b, p.1 = .type b → (argumentsFor receiver? b)[p.2]? = none) → O p) :
    (t.through? receiver?).Mentions O := by
  rw [through?_eq_instantiate receiver? default]
  refine mentions_instantiate (fun owner a ha => ?_) t fun p hp hnone => h p hp fun b hb => ?_
  · cases owner with
    | method k => simp [supplied] at ha
    | type d =>
        replace ha : a ∈ argumentsFor receiver? d := ha
        unfold argumentsFor at ha
        split at ha
        · split at ha
          · exact mentions_named.mp (hreceiver _ rfl) a ha
          · cases ha
        · cases ha
  · rw [hb] at hnone
    exact hnone

/-- A type with the parameters of one owner replaced. -/
theorem mentions_substitute {owner : ParamOwner} {args : List Ty}
    (hargs : ∀ a ∈ args, a.Mentions O) (t : Ty)
    (h : ∀ p ∈ t.params, (p.1 = owner → args.length ≤ p.2) → O p) :
    (t.substitute owner args).Mentions O := by
  obtain ⟨values, hvalues⟩ : ∃ values : ParamOwner → List Ty, ∀ other,
      values other = if other = owner then args else [] := ⟨_, fun _ => rfl⟩
  rw [substitute_eq_instantiate hvalues]
  refine mentions_instantiate (fun other a ha => ?_) t fun p hp hnone => h p hp fun heq => ?_
  · rw [hvalues] at ha
    split at ha
    · exact hargs a ha
    · cases ha
  · rw [hvalues, if_pos heq] at hnone
    exact List.getElem?_eq_none_iff.mp hnone

end Ty

/-! ## Members and their uses -/

namespace Model

/-- The types and methods whose declarations enclose a node. -/
def enclosers (m : Model) (c : Cursor) : List ParamOwner := m.table.enclosers m.document c

/-- A node reads the type that a member is declared with: the type the member is seen through,
the type it belongs to, and the type it is declared with. -/
inductive Uses (m : Model) (use : Cursor) : Option Ty → TypeId → Ty → Prop
  | field {f : FieldId} {receiver? : Option Ty} (h : m.symbolOf? use = some (.field f receiver?)) :
      Uses m use receiver? (m.table.field f).owner (m.table.field f).ty
  | property {p : PropertyId} {receiver? : Option Ty}
      (h : m.symbolOf? use = some (.property p receiver?)) :
      Uses m use receiver? (m.table.property p).owner (m.table.property p).ty
  | call {method : MethodId} (hkind : use.kind = .invocationExpression)
      (h : m.invokedMethod? use = some method) :
      Uses m use (m.receiverOf? use) (m.table.method method).owner (m.table.method method).returnTy
  /-- A value is called, which is a delegate. -/
  | delegate {callee : Cursor} {value : Symbol} {ty : Ty} {d : TypeId} {method : MethodId}
      (hkind : use.kind = .invocationExpression) (hcallee : use.expression? = some callee)
      (hvalue : m.symbolOf? callee = some value) (hty : m.table.typeOfSymbol? value = some ty)
      (hd : ty.definition? = some d) (hmethod : m.table.invoke? d = some method) :
      Uses m use (some ty) (m.table.method method).owner (m.table.method method).returnTy

/-- A node uses a member of a type or of one nested in it, and the type parameter at a place of
that type, which the member is declared with, gets no argument from the receiver. -/
def LeavesOpen (m : Model) (use : Cursor) (t : TypeId) (index : Nat) : Prop :=
  ∃ receiver? owner declared, m.Uses use receiver? owner declared ∧ m.table.NestedIn owner t ∧
    (.type t, index) ∈ declared.params ∧ (Ty.argumentsFor receiver? t)[index]? = none

/-- What is needed of the symbols for a document: members mention only type parameters of what
they are declared in, and these are in scope at the declaration of a method. -/
structure Grounded (m : Model) (doc : Document) : Prop where
  confined : m.table.Confined
  calls : m.table.CallsPlain
  method : ∀ place id, Below doc.root place → place.isNode = true → DeclaresMethod place →
    m.declaredMethod? place = some id → ∀ p, m.table.OfMethod id p → p.1 ∈ m.enclosers place

theorem grounded {project : Project} {doc : Document} (hdoc : doc ∈ project.documents) :
    (Model.mk (.ofProject project) doc.id).Grounded doc where
  confined := confined_ofProject project
  calls := callsPlain_ofProject project
  method _ _ hplace hnode hkind hid _ hp :=
    (mem_enclosers_method hdoc hplace hnode hkind (declaredMethod?_eq_some hid)).mpr
      (hp.imp_left And.left)

/-- A type parameter of one of some declarations, or one that a member leaves open where it is
used among these declarations. -/
def Traced (m : Model) (doc : Document) (around : List ParamOwner) (p : ParamOwner × Nat) : Prop :=
  p.1 ∈ around ∨ ∃ use ∈ doc.root.nodes, m.enclosers use ⊆ around ∧
    ∃ t, p.1 = .type t ∧ m.LeavesOpen use t p.2

/-- All type parameters in a type are traced from a node. -/
abbrev Scoped (m : Model) (doc : Document) (c : Cursor) : Ty → Prop :=
  Ty.Mentions (m.Traced doc (m.enclosers c))

end Model

/-- All type parameters in the types of a symbol have a property. -/
def Symbol.Mentions (O : ParamOwner × Nat → Prop) : Symbol → Prop
  | .space _ => True
  | .type ty => ty.Mentions O
  | .methods _ receiver? thisArgument? =>
    (∀ ty ∈ receiver?, ty.Mentions O) ∧ ∀ ty ∈ thisArgument?, ty.Mentions O
  | .field _ receiver? | .property _ receiver? => ∀ ty ∈ receiver?, ty.Mentions O
  | .parameter p => p.ty.Mentions O
  | .localVariable _ _ ty => ty.Mentions O

theorem Symbol.Mentions.imp {O O' : ParamOwner × Nat → Prop} {symbol : Symbol}
    (h : symbol.Mentions O) (himp : ∀ p, O p → O' p) : symbol.Mentions O' := by
  cases symbol with
  | space => trivial
  | type | parameter | localVariable => exact Ty.Mentions.imp h himp
  | methods => exact ⟨fun ty hty => (h.1 ty hty).imp himp, fun ty hty => (h.2 ty hty).imp himp⟩
  | field | property => exact fun ty hty => (h ty hty).imp himp

namespace Model

variable {m : Model} {doc : Document} {around around' : List ParamOwner} {symbol : Symbol}

theorem Traced.mono {p : ParamOwner × Nat} (h : m.Traced doc around p) (hsub : around ⊆ around') :
    m.Traced doc around' p := by
  rcases h with howner | ⟨use, huse, huseSub, ht⟩
  · exact .inl (hsub howner)
  · exact .inr ⟨use, huse, List.Subset.trans huseSub hsub, ht⟩

/-! ## Names -/

section

variable {at_ : Cursor} (hsub : m.enclosers at_ ⊆ around)
include hsub

theorem mentions_of_inScope {ty : Ty} (h : ty.Mentions (m.table.InScope m.document at_)) :
    ty.Mentions (m.Traced doc around) :=
  h.imp fun _ hp => .inl (hsub hp.1)

theorem mentions_resolveType (c : Cursor) :
    ((m.scope at_).resolveType c).Mentions (m.Traced doc around) :=
  mentions_of_inScope hsub (resolveType_inScope m.table m.document at_ c)

theorem mentions_of_holds {meaning : NameMeaning}
    (h : meaning.Holds (Ty.Mentions (m.table.InScope m.document at_))) :
    meaning.symbol.Mentions (m.Traced doc around) := by
  cases meaning with
  | space => trivial
  | type ty => exact mentions_of_inScope hsub h

theorem mentions_resolveName {c : Cursor} {meaning : NameMeaning}
    (h : (m.scope at_).resolveName c = some meaning) :
    meaning.symbol.Mentions (m.Traced doc around) :=
  mentions_of_holds hsub ((Scope.within_holds (Ty.formed_mentions m.table _)
    (holds_inScope m.table m.document at_) _).2 c meaning h)

theorem mentions_member {left meaning : NameMeaning} {name : Cursor}
    (h : (m.scope at_).member left name = some meaning) :
    meaning.symbol.Mentions (m.Traced doc around) :=
  mentions_of_holds hsub (Scope.memberWith_holds (Ty.formed_mentions m.table _)
    (resolveType_inScope m.table m.document at_) h)

theorem mentions_globalName? {name : String} {arguments? : Option Cursor}
    (h : globalName? (m.scope at_) name arguments? = some symbol) :
    symbol.Mentions (m.Traced doc around) := by
  obtain ⟨meaning, hmeaning, rfl⟩ := Option.map_eq_some_iff.mp h
  have hformed : Formed (m.scope at_).table (Ty.Mentions (m.table.InScope m.document at_)) :=
    Ty.formed_mentions _ _
  exact mentions_of_holds hsub (Scope.applied_holds hformed
    (resolveType_inScope m.table m.document at_)
    (Scope.lookup_holds hformed (holds_inScope m.table m.document at_) hmeaning))

/-- A member is seen through the type it is found in. -/
theorem OwnMember.mentions {ty : Ty} {name : String} {arguments : List Cursor} {owner : TypeId}
    (hty : ty.Mentions (m.Traced doc around))
    (h : m.OwnMember at_ ty name arguments owner symbol) :
    symbol.Mentions (m.Traced doc around) := by
  cases h with
  | field | property => exact fun r hr => Option.some.inj hr ▸ hty
  | methods => exact ⟨fun r hr => Option.some.inj hr ▸ hty, nofun⟩
  | nested =>
      refine Ty.mentions_named.mpr fun a ha => ?_
      obtain ⟨written, -, rfl⟩ := List.mem_map.mp ha
      exact mentions_resolveType hsub written

theorem MemberOf.mentions {ty : Ty} {name : String} {arguments : List Cursor}
    (hty : ty.Mentions (m.Traced doc around))
    (h : m.MemberOf at_ ty name arguments symbol) : symbol.Mentions (m.Traced doc around) := by
  cases h with
  | own h => exact h.mentions hsub hty
  | extension => exact ⟨nofun, fun r hr => Option.some.inj hr ▸ hty⟩

/-- A type around a node is applied to its own parameters. -/
theorem mentions_instanceType {t : TypeId} (h : t ∈ (m.scope at_).enclosingTypes) :
    (m.table.instanceType t).Mentions (m.Traced doc around) := by
  obtain ⟨level, hlevel, ht⟩ := List.mem_filterMap.mp h
  split at ht
  · next found =>
    obtain rfl := Option.some.inj ht
    refine Ty.mentions_named.mpr fun a ha => ?_
    obtain ⟨⟨name, i⟩, hname, rfl⟩ := List.mem_map.mp ha
    exact mentions_of_inScope hsub (holds_inScope m.table m.document at_ _ hlevel i name
      (List.mem_zipIdx_iff_getElem?.mp hname))
  · cases ht

end

/-! ## Answers to other questions -/

/-- The type of a node mentions only type parameters that are traced from there. -/
def TracedType (m : Model) (doc : Document) (c : Cursor) (ty : Ty) : Prop :=
  c.isNode = true → m.Scoped doc c ty

/-- So do the types of a symbol for a node, and that of its value. -/
def TracedSymbol (m : Model) (doc : Document) (c : Cursor) (symbol : Symbol) : Prop :=
  c.isNode = true → symbol.Mentions (m.Traced doc (m.enclosers c)) ∧
    ∀ ty, m.table.typeOfSymbol? symbol = some ty → m.Scoped doc c ty

/-- Answers that trace all type parameters. -/
structure TracedBy (m : Model) (doc : Document) (q : Queries) : Prop where
  typeOf : ∀ d ty, q.typeOf d = some ty → m.TracedType doc d ty
  symbolOf : ∀ d symbol, q.symbolOf d = some symbol → m.TracedSymbol doc d symbol

section

variable {q : Queries} (hq : m.TracedBy doc q) {c d : Cursor}

theorem enclosers_eq (h : SameScope c d) : m.enclosers d = m.enclosers c := h.enclosers_eq

include hq

theorem TracedBy.typeOf_within (h : SameScope c d) (hd : d.isNode = true) {ty : Ty}
    (hty : q.typeOf d = some ty) : m.Scoped doc c ty := by
  rw [Scoped, ← enclosers_eq h]
  exact hq.typeOf d ty hty hd

theorem TracedBy.expression {e : Cursor} (he : c.expression? = some e) {ty : Ty}
    (hty : q.typeOf e = some ty) : m.Scoped doc c ty :=
  hq.typeOf_within (.expression he) (isNode_of_mem_children (mem_children_of_childOf? he).1) hty

theorem TracedBy.expressions {e : Cursor} {i : Nat} (he : c.expressions[i]? = some e) {ty : Ty}
    (hty : q.typeOf e = some ty) : m.Scoped doc c ty := by
  obtain ⟨hmem, hkind⟩ := mem_children_of_mem_childrenOf (List.mem_of_getElem? he)
  exact hq.typeOf_within (.child hmem (opensScope_of_isExpr hkind)) (isNode_of_mem_children hmem) hty

/-! ## Local variables -/

omit hq in
theorem variableTy_scoped {written : Cursor} {inferred : Option Ty} (hwritten : SameScope c written)
    (hinferred : ∀ ty ∈ inferred, m.Scoped doc c ty) :
    m.Scoped doc c (m.variableTy written inferred) := by
  unfold variableTy
  split
  · cases inferred with
    | none => exact Ty.mentions_of_params_eq rfl
    | some ty => exact hinferred ty rfl
  · exact mentions_resolveType (enclosers_eq hwritten ▸ List.Subset.refl _) written

theorem declaredVariable?_mentions {name : String} {position : Nat} {declaration : Cursor}
    (hin : SameScope c declaration) (h : m.declaredVariable? q name position declaration = some symbol) :
    symbol.Mentions (m.Traced doc (m.enclosers c)) := by
  obtain ⟨declarator, hdeclarator, h⟩ := Option.bind_eq_some_iff.mp h
  obtain ⟨written, hwritten, h⟩ := Option.bind_eq_some_iff.mp h
  obtain rfl := Option.some.inj h
  refine variableTy_scoped (hin.trans (.type hwritten)) fun ty hty => ?_
  obtain ⟨value, hvalue, hty⟩ := Option.bind_eq_some_iff.mp hty
  obtain ⟨clause, hclause, hvalue⟩ := Option.bind_eq_some_iff.mp hvalue
  have hdown : SameScope declaration declarator := .ofKind (List.mem_of_find?_eq_some hdeclarator) rfl
  have hclause : SameScope declarator clause := .child? hclause rfl
  exact hq.typeOf_within (hin.trans (hdown.trans (hclause.trans (.expression hvalue))))
    (isNode_of_mem_children (mem_children_of_childOf? hvalue).1) hty

omit hq in
theorem elementTy?_mentions {O : ParamOwner × Nat → Prop} {ty element : Ty} (hty : ty.Mentions O)
    (h : elementTy? ty = some element) : element.Mentions O := by
  unfold elementTy? at h
  split at h
  · obtain rfl := Option.some.inj h
    exact hty
  · obtain rfl := Option.some.inj h
    exact Ty.mentions_named.mp hty _ (List.mem_singleton_self _)
  · cases h

theorem foreachTy_scoped : m.Scoped doc c (m.foreachTy q c) := by
  have hinferred : ∀ ty ∈ (c.collection?.bind q.typeOf).bind elementTy?, m.Scoped doc c ty := by
    intro ty hty
    obtain ⟨whole, hwhole, hty⟩ := Option.bind_eq_some_iff.mp hty
    obtain ⟨e, he, hwhole⟩ := Option.bind_eq_some_iff.mp hwhole
    have hmem := mem_children_of_collection? he
    have hkind := List.find?_some (p := fun d : Cursor => d.kind.isExpr) he
    exact elementTy?_mentions (hq.typeOf_within (.child hmem (opensScope_of_isExpr hkind))
      (isNode_of_mem_children hmem) hwhole) hty
  unfold foreachTy
  dsimp only
  split
  · next written hwritten => exact variableTy_scoped (.type hwritten) hinferred
  · cases hty : (c.collection?.bind q.typeOf).bind elementTy? with
    | none => exact Ty.mentions_of_params_eq rfl
    | some ty => exact hinferred ty hty

end

/-- The type a member is declared with, seen through a receiver: what the receiver leaves open of
the types around the member is traced to the use. -/
theorem Uses.mentions {O : ParamOwner × Nat → Prop} {use : Cursor} {receiver? : Option Ty}
    {owner : TypeId} {declared : Ty} (h : m.Uses use receiver? owner declared)
    (huse : use ∈ doc.root.nodes) (htraced : ∀ p, m.Traced doc (m.enclosers use) p → O p)
    (hreceiver : ∀ r ∈ receiver?, m.Scoped doc use r)
    (hdeclared : declared.Mentions fun p => O p ∨ m.table.Around owner p.1) :
    (declared.through? receiver?).Mentions O := by
  refine Ty.mentions_through? (fun r hr => (hreceiver r hr).imp htraced) declared fun p hp hopen => ?_
  rcases hdeclared p hp with hO | ⟨t, ht, hnested⟩
  · exact hO
  · have hopen : m.LeavesOpen use t p.2 :=
      ⟨receiver?, owner, declared, h, hnested, by rwa [← ht], hopen t ht⟩
    exact htraced p (.inr ⟨use, huse, List.Subset.refl _, t, ht, hopen⟩)

section

variable {q : Queries} {c : Cursor} (hm : m.Grounded doc)
include hm

/-- A parameter has a type that its list or its method is declared with. -/
theorem parameter_scoped {param : Cursor} {p : ParameterSymbol} (hc : Below doc.root c)
    (hnode : c.isNode = true) (hlocal : IsLocalParameter c param)
    (h : m.declaredParameter? param = some p) :
    m.Scoped doc c p.ty := by
  obtain ⟨-, -, place, hplace, howner⟩ := declaredParameter?_eq_some h
  obtain rfl := place_of_isLocalParameter hlocal hplace
  rcases hlocal with ⟨hlambda, hmem⟩ | ⟨hmethod, hmem⟩
  · have hty : p.ty = (param.type?.map m.resolveType).getD (.error "") := by
      unfold parameterOwner? at howner
      split at howner
      case h_4 | h_5 => exact ((Prod.mk.inj (Option.some.inj howner)).2).symm
      all_goals simp_all [Kind.isLambda]
    rw [hty]
    cases hwritten : param.type? with
    | none => exact Ty.mentions_of_params_eq rfl
    | some written =>
        have hin := (SameScope.lambdaParameter hmem).trans (.type hwritten)
        exact mentions_resolveType (enclosers_eq hin ▸ List.Subset.refl _) written
  · obtain ⟨id, hid, hparam⟩ : ∃ id, m.declaredMethod? place = some id ∧
        m.methodParameter? id p.ordinal = some (p.owner, p.ty) := by
      unfold parameterOwner? at howner
      rcases hmethod with hkind | hkind <;> simp only [hkind] at howner <;>
        exact Option.bind_eq_some_iff.mp howner
    obtain ⟨info, hinfo, heq⟩ := Option.map_eq_some_iff.mp hparam
    have htypes : info.ty ∈ (m.table.method id).types :=
      List.mem_cons_of_mem _ (List.mem_map_of_mem (List.mem_of_getElem? hinfo))
    rw [← (Prod.mk.inj heq).2]
    exact (hm.confined.methods id _ htypes).imp fun q hq =>
      .inl (hm.method place id hc hnode hmethod hid q hq)

/-- What a construct gives to a name inside it. -/
theorem Bound.mentions (hq : m.TracedBy doc q) (hc : Below doc.root c) (hnode : c.isNode = true)
    (h : Bound m q c symbol) : symbol.Mentions (m.Traced doc (m.enclosers c)) := by
  cases h with
  | declared hdeclares h =>
      refine declaredVariable?_mentions hq ?_ h
      rcases hdeclares with hhead | ⟨s, hs, hkind, hstatement⟩
      · exact .child? hhead rfl
      · have hout : SameScope c s := .child hs (by rw [hkind]; rfl)
        exact hout.trans (.child? hstatement rfl)
  | element => exact foreachTy_scoped hq
  | parameter hlocal h => exact parameter_scoped hm hc hnode hlocal h

/-! ## Expressions -/

/-- What an expression without parentheses refers to, if what it depends on is traced. A member
behind a dot is seen through the type of what stands before the dot. -/
theorem Refers.mentions (hq : m.TracedBy doc q) (hc : Below doc.root c) (h : m.Refers q c symbol) :
    symbol.Mentions (m.Traced doc (m.enclosers c)) := by
  have before {receiver : Cursor} (hreceiver : c.expression? = some receiver) :
      m.enclosers receiver = m.enclosers c ∧ receiver.isNode = true :=
    ⟨enclosers_eq (.expression hreceiver),
      isNode_of_mem_children (mem_children_of_childOf? hreceiver).1⟩
  have hself := List.Subset.refl (m.enclosers c)
  cases h with
  | bound haround h =>
      obtain ⟨hroot, hup⟩ := hc.of_mem_ancestors rfl (List.mem_of_mem_tail haround)
      have hnode := hc.isNode_of_mem_tail rfl haround
      exact (h.mentions hm hq hroot hnode).imp fun _ hp => hp.mono (enclosers_subset hup)
  | member _ _ ht h => exact h.mentions hself (mentions_instanceType hself ht)
  | global h => exact mentions_globalName? hself h
  | written h => exact mentions_resolveName hself h
  | inSpace hreceiver h => exact mentions_member ((before hreceiver).1 ▸ List.Subset.refl _) h
  | ofType _ hreceiver _ _ hty h =>
      obtain ⟨hin, hnode⟩ := before hreceiver
      refine h.mentions (hin ▸ List.Subset.refl _) ?_
      rw [← hin]
      exact (hq.symbolOf _ _ hty hnode).1
  | ofValue _ hreceiver _ _ hty h =>
      obtain ⟨hin, hnode⟩ := before hreceiver
      refine h.mentions (hin ▸ List.Subset.refl _) ?_
      rw [← hin]
      rcases hty with hty | ⟨value, hvalue, hty⟩
      · exact hq.typeOf _ _ hty hnode
      · exact (hq.symbolOf _ _ hvalue hnode).2 _ hty

/-- What an expression refers to, if what it depends on is traced. -/
theorem symbolOfWith_mentions (hq : m.TracedBy doc q) (hc : Below doc.root c)
    (h : m.symbolOfWith q c = some symbol) : symbol.Mentions (m.Traced doc (m.enclosers c)) := by
  rw [← enclosers_eq (m := m) (SameScope.unparenthesized c)]
  exact (symbolOfWith_refers h).mentions hm hq (hc.trans (below_unparenthesized c))

/-- The type of the value of a symbol that a node refers to. -/
theorem typeOfSymbol?_scoped (hc : c ∈ doc.root.nodes) (hsymbol : m.symbolOf? c = some symbol)
    (hmentions : symbol.Mentions (m.Traced doc (m.enclosers c))) {ty : Ty}
    (hty : m.table.typeOfSymbol? symbol = some ty) : m.Scoped doc c ty := by
  cases symbol with
  | space | type | methods => cases hty
  | parameter | localVariable =>
      obtain rfl := Option.some.inj hty
      exact hmentions
  | field f receiver? =>
      obtain rfl := Option.some.inj hty
      exact (Uses.field hsymbol).mentions hc (fun _ hp => hp) hmentions
        ((hm.confined.fields f).imp fun _ hp => .inr hp)
  | property p receiver? =>
      obtain rfl := Option.some.inj hty
      exact (Uses.property hsymbol).mentions hc (fun _ hp => hp) hmentions
        ((hm.confined.properties p).imp fun _ hp => .inr hp)

/-! ## Calls -/

omit hm in
/-- The type arguments of a call are written at the call, or are types of its arguments. -/
theorem typeArgumentsWith_scoped (hq : m.TracedBy doc q) {method : MethodId}
    {receiver? : Option Ty} (hthis : ∀ ty ∈ thisArgumentWith? q c, m.Scoped doc c ty) :
    ∀ a ∈ m.typeArgumentsWith q c method receiver?, m.Scoped doc c a := by
  intro a ha
  unfold typeArgumentsWith at ha
  dsimp only at ha
  split at ha
  · next fit hfit =>
    rcases Fit.mem_typeArguments hfit ha with ⟨written, hwritten, ha⟩ | hown | hshape | ⟨name, rfl⟩
    · obtain ⟨name, -, hwritten⟩ := Option.bind_eq_some_iff.mp hwritten
      obtain ⟨list, -, hwritten⟩ := Option.bind_eq_some_iff.mp hwritten
      obtain rfl := Option.some.inj hwritten
      obtain ⟨type, -, rfl⟩ := List.mem_map.mp ha
      exact mentions_resolveType (List.Subset.refl _) type
    · exact hthis a hown
    · obtain ⟨argument, hargument, hshape⟩ := List.mem_map.mp hshape
      unfold argumentShape at hshape
      split at hshape
      · cases hshape
      · next value hvalue =>
        split at hshape
        · cases hshape
        · split at hshape
          · next ty hty =>
            obtain rfl := ArgumentShape.typed.inj hshape
            exact hq.typeOf_within ((SameScope.argument hargument).trans (.expression hvalue))
              (isNode_of_mem_children (mem_children_of_childOf? hvalue).1) hty
          · cases hshape
    · exact Ty.mentions_of_params_eq rfl
  · obtain ⟨name, -, rfl⟩ := List.mem_map.mp ha
    exact Ty.mentions_of_params_eq rfl

/-- The type of a call: the return type of a method, or of the call of a delegate. -/
theorem invocationTy?_scoped (hq : m.TracedBy doc q)
    (hagree : Queries.Agree doc.parsed.tree q (m.queries c) (2 * c.walkRank + 1))
    (hc : c ∈ doc.root.nodes) (hkind : c.kind = .invocationExpression) {ty : Ty}
    (h : m.invocationTy? q c = some ty) : m.Scoped doc c ty := by
  have hbelow := below_of_mem_nodes hc
  have htype := h
  rw [invocationTy?_congr hagree hbelow (Nat.le_succ _)] at htype
  obtain ⟨callee, hcallee, h⟩ := Option.bind_eq_some_iff.mp h
  obtain ⟨symbol, hsymbol, h⟩ := Option.bind_eq_some_iff.mp h
  have hin := enclosers_eq (m := m) (SameScope.expression hcallee)
  have hnode := isNode_of_mem_children (mem_children_of_childOf? hcallee).1
  obtain ⟨hmentions, hvalue⟩ := hq.symbolOf callee symbol hsymbol hnode
  rw [Scoped, hin] at hvalue
  rw [hin] at hmentions
  have hsame : c.expression?.bind (m.queries c).symbolOf = some symbol := by
    rw [← callee_congr hagree hbelow (Nat.le_succ _), hcallee]
    exact hsymbol
  split at h
  · next candidates receiver? thisArgument? =>
    obtain ⟨method, hmethod, -⟩ := Option.bind_eq_some_iff.mp h
    have hmeans : m.invokedMethod? c = some method :=
      (invokedMethodWith?_congr hagree hbelow (Nat.le_succ _)).symm.trans hmethod
    have hreceiver : m.receiverOf? c = receiver? := by rw [receiverOf?, hsame]
    have hargs : ∀ a ∈ m.typeArguments c method (m.receiverOf? c), m.Scoped doc c a := by
      rw [typeArguments, ← typeArgumentsWith_congr hagree hbelow (Nat.le_succ _)]
      refine typeArgumentsWith_scoped hq fun own hown => ?_
      rw [thisArgumentWith?, hcallee, Option.bind_some, hsymbol] at hown
      exact hmentions.2 own hown
    rw [invocationTy?_of_invokedMethod? hmeans] at htype
    obtain rfl := Option.some.inj htype
    refine Ty.mentions_substitute hargs _ ((Uses.call hkind hmeans).mentions hc
      (fun p hp _ => hp) (hreceiver ▸ hmentions.1) ?_)
    refine (hm.confined.methods method _ List.mem_cons_self).imp fun p hp => ?_
    refine hp.imp_left fun hown hle => absurd (hle hown.1) ?_
    rw [(typeArguments_of_invokedMethod? hmeans).1]
    exact Nat.not_le_of_lt hown.2
  · next value hnone =>
    obtain ⟨delegate, hdelegate, h⟩ := Option.bind_eq_some_iff.mp h
    obtain ⟨d, hd, h⟩ := Option.bind_eq_some_iff.mp h
    obtain ⟨method, hmethod, h⟩ := Option.bind_eq_some_iff.mp h
    obtain rfl := Option.some.inj h
    rw [hcallee, Option.bind_some] at hsame
    have hmeans : m.symbolOf? callee = some symbol := by
      rw [symbolOf?, queries_eq hbelow (hbelow.trans (below_of_childOf? hcallee))]
      exact hsame
    have huse := Uses.delegate hkind hcallee hmeans hdelegate hd hmethod
    refine huse.mentions hc (fun _ hp => hp) (fun r hr => Option.some.inj hr ▸ hvalue _ hdelegate) ?_
    refine (hm.confined.methods method _ List.mem_cons_self).imp fun p hp => ?_
    rw [SymbolTable.OfMethod, hm.calls.typeParams_eq hmethod] at hp
    exact .inr (hp.resolve_left fun hown => Nat.not_lt_zero _ hown.2)

omit hm in
theorem keywordTy?_mentions {O : ParamOwner × Nat → Prop} {k : Kind} {ty : Ty}
    (h : m.table.keywordTy? k = some ty) : ty.Mentions O := by
  obtain ⟨id, -, rfl⟩ := Option.map_eq_some_iff.mp h
  exact Ty.mentions_of_params_eq rfl

omit hm in
theorem literalTy?_mentions {O : ParamOwner × Nat → Prop} {ty : Ty} (h : m.literalTy? c = some ty) :
    ty.Mentions O := by
  obtain ⟨token, -, h⟩ := Option.bind_eq_some_iff.mp h
  dsimp only at h
  split at h
  case h_7 =>
    obtain rfl := Option.some.inj h
    exact Ty.mentions_of_params_eq rfl
  case h_8 => cases h
  all_goals exact keywordTy?_mentions h

omit hm in
theorem arithmeticTy_mentions {O : ParamOwner × Nat → Prop} {op : String} {left : Ty}
    {right? : Option Ty} (hleft : left.Mentions O) (hright : ∀ ty ∈ right?, ty.Mentions O) :
    (m.arithmeticTy op left right?).Mentions O := by
  have widest : (arithmeticTy.widest m left right?).Mentions O := by
    unfold arithmeticTy.widest
    split
    · next right =>
      split
      · exact hright right rfl
      · exact hleft
    · exact hleft
  unfold arithmeticTy
  dsimp only
  split
  · next string hstring =>
    split
    · exact keywordTy?_mentions hstring
    · exact widest
  · exact widest

omit hm in
theorem binaryTy?_scoped (hq : m.TracedBy doc q) {ty : Ty} (h : m.binaryTy? q c = some ty) :
    m.Scoped doc c ty := by
  unfold binaryTy? at h
  dsimp only at h
  split at h
  · exact keywordTy?_mentions h
  · obtain ⟨e, he, h⟩ := Option.bind_eq_some_iff.mp h
    obtain ⟨left, hleft, h⟩ := Option.bind_eq_some_iff.mp h
    have hleft := hq.expression he hleft
    split at h
    · obtain rfl := Option.some.inj h
      exact hleft
    · obtain rfl := Option.some.inj h
      refine arithmeticTy_mentions hleft fun ty hty => ?_
      obtain ⟨right, hright, hty⟩ := Option.bind_eq_some_iff.mp hty
      exact hq.expressions hright hty

/-- The type of an expression, if what it depends on is traced. -/
theorem typeOfWith_scoped (hq : m.TracedBy doc q)
    (hagree : Queries.Agree doc.parsed.tree q (m.queries c) (2 * c.walkRank + 1))
    (hc : c ∈ doc.root.nodes) {ty : Ty} (h : m.typeOfWith q c = some ty) : m.Scoped doc c ty := by
  have hin := SameScope.unparenthesized c
  have hnode := hin.isNode (List.mem_filter.mp hc).2
  rw [Scoped, ← enclosers_eq hin]
  have operand {e : Cursor} (he : c.unparenthesized.expression? = some e) {ty : Ty}
      (hty : q.typeOf e = some ty) : m.Scoped doc c.unparenthesized ty := hq.expression he hty
  unfold typeOfWith at h
  dsimp only at h
  split at h
  case h_1 => exact literalTy?_mentions h
  case h_2 | h_3 | h_4 =>
    obtain ⟨symbol, hsymbol, hty⟩ := Option.bind_eq_some_iff.mp h
    exact (hq.symbolOf _ symbol hsymbol hnode).2 ty hty
  case h_5 hkind =>
    have hbelow := below_of_mem_nodes hc
    have hdown := hbelow.trans hin.below
    have hrank := Nat.mul_le_mul_left 2 hin.below.walkRank_le
    refine invocationTy?_scoped hm hq ?_ (hdown.mem_nodes hnode) hkind h
    rw [queries_eq hbelow hdown]
    exact hagree.mono (Nat.succ_le_succ hrank)
  case h_6 | h_7 | h_8 | h_9 =>
    obtain ⟨written, hwritten, rfl⟩ := Option.map_eq_some_iff.mp h
    exact mentions_resolveType (enclosers_eq (.type hwritten) ▸ List.Subset.refl _) written
  case h_10 =>
    obtain ⟨e, he, hty⟩ := Option.bind_eq_some_iff.mp h
    exact operand he hty
  case h_11 =>
    obtain ⟨e, he, hty⟩ := Option.bind_eq_some_iff.mp h
    exact hq.expressions he hty
  case h_12 =>
    obtain ⟨t, ht, rfl⟩ := Option.map_eq_some_iff.mp h
    exact mentions_instanceType (List.Subset.refl _) (List.mem_of_head? ht)
  case h_13 => exact keywordTy?_mentions h
  case h_14 | h_15 =>
    unfold unaryTy? at h
    split at h
    · exact keywordTy?_mentions h
    · obtain ⟨e, he, hty⟩ := Option.bind_eq_some_iff.mp h
      exact operand he hty
  case h_16 => exact binaryTy?_scoped hq h
  case h_17 =>
    obtain ⟨e, he, h⟩ := Option.bind_eq_some_iff.mp h
    obtain ⟨whole, hwhole, h⟩ := Option.bind_eq_some_iff.mp h
    split at h
    · obtain rfl := Option.some.inj h
      exact (operand he hwhole :)
    · cases h
  case h_18 => cases h

end

/-! ## All questions -/

theorem filter_eq_self {α : Type} {o : Option α} {p : α → Bool}
    (h : ∀ a, o = some a → p a = true) : o.filter p = o := by
  cases o with
  | none => rfl
  | some a => rw [Option.filter_some, if_pos (h a rfl)]

section

open scoped Classical

/-- Only those answers that trace all type parameters. -/
noncomputable def tracedAnswers (m : Model) (doc : Document) (q : Queries) : Queries where
  typeOf c := (q.typeOf c).filter fun ty => decide (m.TracedType doc c ty)
  symbolOf c := (q.symbolOf c).filter fun symbol => decide (m.TracedSymbol doc c symbol)

theorem tracedBy_tracedAnswers (q : Queries) : m.TracedBy doc (m.tracedAnswers doc q) where
  typeOf _ _ h := decide_eq_true_iff.mp (Option.filter_eq_some_iff.mp h).2
  symbolOf _ _ h := decide_eq_true_iff.mp (Option.filter_eq_some_iff.mp h).2

/-- As long as all answers trace their parameters, no answer is left out. -/
theorem agree_tracedAnswers {q : Queries} {bound : Nat}
    (hsymbol : ∀ d, Below doc.root d → 2 * d.walkRank < bound →
      ∀ symbol, q.symbolOf d = some symbol → m.TracedSymbol doc d symbol)
    (htype : ∀ d, Below doc.root d → 2 * d.walkRank + 1 < bound →
      ∀ ty, q.typeOf d = some ty → m.TracedType doc d ty) :
    Queries.Agree doc.parsed.tree (m.tracedAnswers doc q) q bound where
  symbolOf d hd hlt := filter_eq_self fun symbol h => decide_eq_true_iff.mpr (hsymbol d hd hlt symbol h)
  typeOf d hd hlt := filter_eq_self fun ty h => decide_eq_true_iff.mpr (htype d hd hlt ty h)

end

/-- All answers about a document trace their type parameters. -/
theorem traced_queries (hm : m.Grounded doc) (bound : Nat) :
    (∀ d, Below doc.root d → 2 * d.walkRank < bound →
      ∀ symbol, m.symbolOf? d = some symbol → m.TracedSymbol doc d symbol) ∧
    ∀ d, Below doc.root d → 2 * d.walkRank + 1 < bound →
      ∀ ty, m.typeOf? d = some ty → m.TracedType doc d ty := by
  induction bound with
  | zero => exact ⟨fun _ _ hlt => absurd hlt (Nat.not_lt_zero _),
      fun _ _ hlt => absurd hlt (Nat.not_lt_zero _)⟩
  | succ bound ih =>
      have hq : m.TracedBy doc (m.tracedAnswers doc (m.queries doc.root)) :=
        tracedBy_tracedAnswers _
      have hroot {d : Cursor} (hd : Below doc.root d) : m.queries d = m.queries doc.root :=
        queries_eq (Below.refl _) hd
      have hagree : Queries.Agree doc.parsed.tree (m.tracedAnswers doc (m.queries doc.root))
          (m.queries doc.root) bound := by
        apply agree_tracedAnswers
        · intro d hd hlt symbol hsymbol
          rw [← hroot hd] at hsymbol
          exact ih.1 d hd hlt symbol hsymbol
        · intro d hd hlt ty hty
          rw [← hroot hd] at hty
          exact ih.2 d hd hlt ty hty
      constructor
      · intro d hd hlt symbol hsymbol hnode
        have hrule := hsymbol
        rw [symbolOf?_eq (isFile_tree doc) hd, hroot hd, ← symbolOfWith_congr hagree hd (by omega)
          fun e he _ => (isFile_tree doc).width_pos_of_name he] at hrule
        have hmentions := symbolOfWith_mentions hm hq hd hrule
        exact ⟨hmentions, fun ty => typeOfSymbol?_scoped hm (hd.mem_nodes hnode) hsymbol hmentions⟩
      · intro d hd hlt ty hty hnode
        rw [typeOf?_eq (isFile_tree doc) hd, hroot hd, ← typeOfWith_congr hagree hd (by omega)]
          at hty
        refine typeOfWith_scoped hm hq ?_ (hd.mem_nodes hnode) hty
        rw [hroot hd]
        exact hagree.mono (by omega)

/-- **Type parameters stay in scope, unless a member leaves them open.** A type parameter in the
type of an expression belongs to a type or method whose declaration encloses the expression. If
it does not, it belongs to a type, and there is a use of a member of this type, or of one nested
in it, through a receiver that gives no argument for the parameter. The declarations around the
use are among those around the expression. So where every receiver gives arguments for the
parameters that its members are declared with, no type parameter gets out of its scope, and the
parameters of methods never do. -/
theorem typeOf?_scoped (project : Project) (doc : Document) (hdoc : doc ∈ project.documents)
    (m : Model) (hm : m = ⟨.ofProject project, doc.id⟩) (e : Cursor) (he : e ∈ doc.root.nodes)
    (ty : Ty) (hty : m.typeOf? e = some ty) (owner : ParamOwner) (index : Nat)
    (hp : (owner, index) ∈ ty.params) :
    owner ∈ m.enclosers e ∨ ∃ t, owner = .type t ∧ ∃ use ∈ doc.root.nodes,
      m.enclosers use ⊆ m.enclosers e ∧ m.LeavesOpen use t index := by
  subst hm
  have hbelow := below_of_mem_nodes he
  have hnode := (List.mem_filter.mp he).2
  rcases (traced_queries (grounded hdoc) _).2 e hbelow (Nat.lt_succ_self _) ty hty hnode _ hp with
    hin | ⟨use, huse, hsub, t, ht, hopen⟩
  · exact .inl hin
  · exact .inr ⟨t, ht, use, huse, hsub, hopen⟩

/-- A project with one document, in which a field of a generic class is used in the class and in
a class derived from it. -/
def escapeProject : Project :=
  Project.empty.append (Document.read 0 "escape.cs"
    "class B<T> \x7b public T f; T N() \x7b return f; \x7d \x7d class D : B<int> \x7b void M() \x7b var x = f; \x7d \x7d" 0)
    rfl

/-- In both places the field is a `T`, and the declaration of `B` is not around the second. -/
theorem names_escapeProject : ∃ doc ∈ escapeProject.documents, doc.id = 0 ∧ doc.errors = [] ∧
    ∃ e ∈ doc.root.nodes, e.kind = .identifierName ∧
      (ofFirst escapeProject).typeOf? e = some (.param (.type ⟨60⟩) 0 "T") ∧
      (ofFirst escapeProject).enclosers e = [.method ⟨50⟩, .type ⟨61⟩] := by
  have hnames : escapeProject.quick.documents.map (fun doc => (doc.id, doc.errors)) = [(0, [])] ∧
      ((nodesIn escapeProject.quick .identifierName).filter fun c => c.name? == some "f").map
        (fun c => ((ofFirst escapeProject.quick).typeOf? c,
          (ofFirst escapeProject.quick).enclosers c)) =
        [(some (.param (.type ⟨60⟩) 0 "T"), [.method ⟨49⟩, .type ⟨60⟩]),
          (some (.param (.type ⟨60⟩) 0 "T"), [.method ⟨50⟩, .type ⟨61⟩])] := by
    decide +kernel
  rw [Project.quick_eq] at hnames
  obtain ⟨hdocs, hnames⟩ := hnames
  obtain ⟨inside, rest, hlist, -, hrest⟩ := List.map_eq_cons_iff.mp hnames
  obtain ⟨e, none, rfl, he, -⟩ := List.map_eq_cons_iff.mp hrest
  obtain ⟨htype, henclosers⟩ := Prod.mk.inj he
  have hmem : e ∈ nodesIn escapeProject .identifierName :=
    List.mem_of_mem_filter (hlist ▸ List.mem_cons_of_mem _ List.mem_cons_self)
  obtain ⟨doc, hdoc, hnode, hkind⟩ := exists_doc_of_mem_nodesIn hmem
  obtain ⟨hid, hclean⟩ := Prod.mk.inj (List.mem_singleton.mp (hdocs ▸ List.mem_map_of_mem hdoc))
  exact ⟨doc, hdoc, hid, hclean, e, hnode, hkind, htype, henclosers⟩

/-- The `T` of `B` is left open by a use of a member in the method of the derived class. -/
theorem typeOf?_scoped_derived : ∃ doc ∈ escapeProject.documents, ∃ e ∈ doc.root.nodes,
    (ofFirst escapeProject).typeOf? e = some (.param (.type ⟨60⟩) 0 "T") ∧
    ∃ use ∈ doc.root.nodes,
      (ofFirst escapeProject).enclosers use ⊆ [.method ⟨50⟩, .type ⟨61⟩] ∧
      (ofFirst escapeProject).LeavesOpen use ⟨60⟩ 0 := by
  obtain ⟨doc, hdoc, hid, -, e, he, -, htype, henclosers⟩ := names_escapeProject
  have hm : ofFirst escapeProject = ⟨.ofProject escapeProject, doc.id⟩ := by rw [hid]; rfl
  refine ⟨doc, hdoc, e, he, htype, ?_⟩
  rcases typeOf?_scoped escapeProject doc hdoc _ hm e he _ htype (.type ⟨60⟩) 0
    List.mem_cons_self with hin | ⟨t, ht, use, huse, hsub, hopen⟩
  · rw [henclosers] at hin
    simp at hin
  · obtain rfl := ParamOwner.type.inj ht
    rw [henclosers] at hsub
    exact ⟨use, huse, hsub, hopen⟩

/-- In the derived class the field has the type `T`, although `B` does not enclose it. -/
theorem typeOf?_escaped : ∃ doc ∈ escapeProject.documents, doc.errors = [] ∧
    ∃ e ∈ doc.root.nodes, e.kind = .identifierName ∧
      (ofFirst escapeProject).typeOf? e = some (.param (.type ⟨60⟩) 0 "T") ∧
      .type ⟨60⟩ ∉ (ofFirst escapeProject).enclosers e := by
  obtain ⟨doc, hdoc, -, hclean, e, he, hkind, htype, henclosers⟩ := names_escapeProject
  refine ⟨doc, hdoc, hclean, e, he, hkind, htype, ?_⟩
  rw [henclosers]
  decide

end Model

end CSharpKit.Semantics
