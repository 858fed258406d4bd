import CSharpKit.Proofs.Semantics.Declarations
import CSharpKit.Semantics.Model

/-!
# Where symbols come from

The rules for names look in many places, but each place gives symbols of few
sorts. A parameter is found only among the parameters of a lambda or a method
around the name, and methods for a value only behind a dot.
-/

namespace CSharpKit.Semantics

open Syntax Workspace Cursor Declare

/-! ## Members -/

/-- A symbol that is no parameter and stands for no extension methods of a value. -/
def Symbol.IsOrdinary : Symbol → Prop
  | .parameter _ => False
  | .methods _ _ thisArgument? => thisArgument? = none
  | _ => True

theorem NameMeaning.isOrdinary (meaning : NameMeaning) : meaning.symbol.IsOrdinary := by
  cases meaning <;> trivial

namespace Model

variable {m : Model} {symbol : Symbol} {at_ : Cursor} {ty : Ty} {name : String}
  {arguments : List Cursor}

/-- What one definition has for a name, seen through a type. -/
inductive OwnMember (m : Model) (at_ : Cursor) (ty : Ty) (name : String) (arguments : List Cursor)
    (owner : TypeId) : Symbol → Prop
  | field {f : FieldId} (h : f ∈ m.table.fieldsOf owner) (hname : (m.table.field f).name = name) :
      OwnMember m at_ ty name arguments owner (.field f (some ty))
  | property {p : PropertyId} (h : p ∈ m.table.propertiesOf owner)
      (hname : (m.table.property p).name = name) :
      OwnMember m at_ ty name arguments owner (.property p (some ty))
  | nested {d : TypeId} (h : m.table.nested? owner name arguments.length = some d) :
      OwnMember m at_ ty name arguments owner
        (.type (.named d (arguments.map (m.scope at_).resolveType)))
  | methods : OwnMember m at_ ty name arguments owner
      (.methods (m.methodsNamed owner name arguments.length) (some ty) none)

/-- The extension methods of a name in a namespace. -/
def extensionsIn (m : Model) (ns : NamespaceId) (name : String) (arity : Nat) : List MethodId :=
  ((m.table.typesIn (.space ns)).flatMap fun t => m.methodsNamed t name arity).filter
    fun id => (m.table.method id).isExtension

/-- What a name stands for behind a value: a member of its type, or extension methods. -/
inductive MemberOf (m : Model) (at_ : Cursor) (ty : Ty) (name : String) (arguments : List Cursor) :
    Symbol → Prop
  | own {owner : TypeId} {symbol : Symbol} (h : m.OwnMember at_ ty name arguments owner symbol) :
      MemberOf m at_ ty name arguments symbol
  | extension (ns : NamespaceId) : MemberOf m at_ ty name arguments
      (.methods (m.extensionsIn ns name arguments.length) none (some ty))

theorem OwnMember.isOrdinary {owner : TypeId} (h : m.OwnMember at_ ty name arguments owner symbol) :
    symbol.IsOrdinary := by
  cases h
  case methods => rfl
  all_goals trivial

theorem MemberOf.ne_parameter (h : m.MemberOf at_ ty name arguments symbol) (p : ParameterSymbol) :
    symbol ≠ .parameter p := by
  rintro rfl
  cases h with
  | own h => exact h.isOrdinary

theorem ownMember?_eq_some {owner : TypeId}
    (h : m.ownMember? at_ ty name arguments owner = some symbol) :
    m.OwnMember at_ ty name arguments owner symbol := by
  have value (h : m.valueNamed? owner name ty = some symbol) :
      m.OwnMember at_ ty name arguments owner symbol := by
    unfold valueNamed? at h
    split at h
    · next f hf =>
      obtain rfl := Option.some.inj h
      exact .field (List.mem_of_find?_eq_some hf) (beq_iff_eq.mp (List.find?_some hf :))
    · obtain ⟨p, hp, rfl⟩ := Option.map_eq_some_iff.mp h
      exact .property (List.mem_of_find?_eq_some hp) (beq_iff_eq.mp (List.find?_some hp :))
  unfold ownMember? at h
  split at h
  · next found hfound =>
    obtain rfl := Option.some.inj h
    split at hfound
    · exact value hfound
    · cases hfound
  · split at h
    · obtain ⟨d, hd, rfl⟩ := Option.map_eq_some_iff.mp h
      exact .nested hd
    · obtain rfl := Option.some.inj h
      exact .methods

theorem memberOfType?_eq_some (h : m.memberOfType? at_ ty name arguments = some symbol) :
    ∃ owner, m.OwnMember at_ ty name arguments owner symbol := by
  obtain ⟨holder, -, hfound⟩ := Option.bind_eq_some_iff.mp h
  obtain ⟨owner, -, hown⟩ := List.exists_of_findSome?_eq_some hfound
  exact ⟨owner, ownMember?_eq_some hown⟩

theorem memberOfValue?_eq_some (h : m.memberOfValue? at_ ty name arguments = some symbol) :
    m.MemberOf at_ ty name arguments symbol := by
  unfold memberOfValue? at h
  split at h
  · next found hfound =>
    obtain rfl := Option.some.inj h
    obtain ⟨owner, hown⟩ := memberOfType?_eq_some hfound
    exact .own hown
  · obtain ⟨ns, -, hns⟩ := List.exists_of_findSome?_eq_some h
    split at hns
    · cases hns
    · obtain rfl := Option.some.inj hns
      exact .extension ns

/-! ## Local variables and parameters -/

/-- A parameter of a lambda, a method or a constructor. -/
def IsLocalParameter (around param : Cursor) : Prop :=
  around.kind.isLambda = true ∧ param ∈ around.lambdaParameters ∨
    DeclaresMethod around ∧ param ∈ around.parameters

/-- A declaration of variables in a construct: in a statement of its own, or as its head. -/
def DeclaresVariables (around declaration : Cursor) : Prop :=
  around.variableDeclaration? = some declaration ∨ ∃ s ∈ around.children,
    s.kind = .localDeclarationStatement ∧ s.variableDeclaration? = some declaration

/-- A symbol that a construct gives to a name inside it. -/
inductive Bound (m : Model) (q : Queries) (around : Cursor) : Symbol → Prop
  | declared {name : String} {position : Nat} {declaration : Cursor} {declarator : Pointer} {ty : Ty}
      (hdeclares : DeclaresVariables around declaration)
      (h : m.declaredVariable? q name position declaration =
        some (.localVariable name declarator ty)) : Bound m q around (.localVariable name declarator ty)
  | element (name : String) :
      Bound m q around (.localVariable name (Pointer.of around) (m.foreachTy q around))
  | parameter {param : Cursor} {p : ParameterSymbol} (hparam : IsLocalParameter around param)
      (h : m.declaredParameter? param = some p) : Bound m q around (.parameter p)

theorem declaredVariable?_bound {q : Queries} {name : String} {position : Nat}
    {declaration around : Cursor} (hdeclares : DeclaresVariables around declaration)
    (h : m.declaredVariable? q name position declaration = some symbol) : Bound m q around symbol := by
  have hsymbol := h
  obtain ⟨declarator, -, h⟩ := Option.bind_eq_some_iff.mp h
  obtain ⟨written, -, h⟩ := Option.bind_eq_some_iff.mp h
  obtain rfl := Option.some.inj h
  exact .declared hdeclares hsymbol

theorem localAt?_bound {q : Queries} {name : String} {position : Nat} {around inner : Cursor}
    (h : m.localAt? q name position around inner = some (some symbol)) : Bound m q around symbol := by
  have lambda (hkind : around.kind.isLambda = true)
      (h : (around.lambdaParameters.find? fun p => p.name? == some name).map
        (fun p => (m.declaredParameter? p).map Symbol.parameter) = some (some symbol)) :
      Bound m q around symbol := by
    obtain ⟨param, hparam, h⟩ := Option.map_eq_some_iff.mp h
    obtain ⟨p, hp, rfl⟩ := Option.map_eq_some_iff.mp h
    exact .parameter (.inl ⟨hkind, List.mem_of_find?_eq_some hparam⟩) hp
  have method (hkind : DeclaresMethod around)
      (h : (around.parameters.find? fun p => p.name? == some name).bind
        (fun p => (m.declaredParameter? p).map Symbol.parameter) = some symbol) :
      Bound m q around symbol := by
    obtain ⟨param, hparam, h⟩ := Option.bind_eq_some_iff.mp h
    obtain ⟨p, hp, rfl⟩ := Option.map_eq_some_iff.mp h
    exact .parameter (.inr ⟨hkind, List.mem_of_find?_eq_some hparam⟩) hp
  unfold localAt? at h
  split at h
  case h_1 hkind => exact lambda (by simp [hkind, Kind.isLambda]) h
  case h_2 hkind => exact lambda (by simp [hkind, Kind.isLambda]) h
  case h_3 =>
    obtain ⟨found, hfound, heq⟩ := Option.map_eq_some_iff.mp h
    obtain rfl := Option.some.inj heq
    obtain ⟨statement, hmem, hstatement⟩ := List.exists_of_findSome?_eq_some hfound
    split at hstatement
    · next hkind =>
      obtain ⟨declaration, hdeclaration, hvariable⟩ := Option.bind_eq_some_iff.mp hstatement
      have hchild := (List.takeWhile_sublist _).subset hmem
      exact declaredVariable?_bound (.inr ⟨statement, hchild, beq_iff_eq.mp hkind, hdeclaration⟩)
        hvariable
    · cases hstatement
  case h_4 =>
    obtain ⟨found, hfound, heq⟩ := Option.map_eq_some_iff.mp h
    obtain rfl := Option.some.inj heq
    obtain ⟨declaration, hdeclaration, hvariable⟩ := Option.bind_eq_some_iff.mp hfound
    exact declaredVariable?_bound (.inl hdeclaration) hvariable
  case h_5 =>
    split at h
    · obtain rfl := Option.some.inj (Option.some.inj h)
      exact .element name
    · cases h
  case h_6 hkind => exact method (.inl hkind) (Option.some.inj h)
  case h_7 hkind => exact method (.inr hkind) (Option.some.inj h)
  case h_8 => cases h

/-- A local symbol comes from a construct around the name. -/
theorem localAbove?_bound {q : Queries} {position : Nat} {c : Cursor}
    (h : m.localAbove? q name position c = some symbol) :
    ∃ around ∈ c.ancestors.tail, Bound m q around symbol := by
  induction c with
  | root t => cases h
  | child p i s t ih =>
      rw [localAbove?] at h
      split at h
      · next answer hanswer =>
        obtain rfl : answer = some symbol := h
        exact ⟨p, by cases p <;> exact List.mem_cons_self, localAt?_bound hanswer⟩
      · obtain ⟨around, haround, hbound⟩ := ih h
        exact ⟨around, List.mem_of_mem_tail haround, hbound⟩

/-! ## Expressions -/

/-- What an expression without parentheses refers to, given answers about those it
depends on: one rule for each place where it is looked for. -/
inductive Refers (m : Model) (q : Queries) (c : Cursor) : Symbol → Prop
  | bound {around : Cursor} {symbol : Symbol} (haround : around ∈ c.ancestors.tail)
      (h : Bound m q around symbol) : Refers m q c symbol
  | member {t owner : TypeId} {name : String} {symbol : Symbol} (hkind : c.kind.isSimpleName = true)
      (hname : c.name? = some name) (ht : t ∈ (m.scope c).enclosingTypes)
      (h : m.OwnMember c (m.table.instanceType t) name c.typeArguments owner symbol) :
      Refers m q c symbol
  | global {name : String} {meaning : NameMeaning}
      (h : globalName? (m.scope c) name c.typeArgumentList? = some meaning.symbol) :
      Refers m q c meaning.symbol
  | written {meaning : NameMeaning} (h : (m.scope c).resolveName c = some meaning) :
      Refers m q c meaning.symbol
  | inSpace {receiver name : Cursor} {left meaning : NameMeaning}
      (hreceiver : c.expression? = some receiver)
      (h : (m.scope receiver).member left name = some meaning) : Refers m q c meaning.symbol
  | ofType {receiver member : Cursor} {owner : TypeId} {ty : Ty} {name : String} {symbol : Symbol}
      (hkind : c.kind = .memberAccessExpression) (hreceiver : c.expression? = some receiver)
      (hmember : c.accessedName? = some member) (hname : member.name? = some name)
      (hty : q.symbolOf receiver = some (.type ty))
      (h : m.OwnMember receiver ty name member.typeArguments owner symbol) : Refers m q c symbol
  | ofValue {receiver member : Cursor} {ty : Ty} {name : String} {symbol : Symbol}
      (hkind : c.kind = .memberAccessExpression) (hreceiver : c.expression? = some receiver)
      (hmember : c.accessedName? = some member) (hname : member.name? = some name)
      (hty : q.typeOf receiver = some ty ∨ ∃ value, q.symbolOf receiver = some value ∧
        m.table.typeOfSymbol? value = some ty)
      (h : m.MemberOf receiver ty name member.typeArguments symbol) : Refers m q c symbol

theorem simpleName?_refers {q : Queries} {c : Cursor} (hkind : c.kind.isSimpleName = true)
    (h : m.simpleName? q c = some symbol) : m.Refers q c symbol := by
  obtain ⟨name, hname, h⟩ := Option.bind_eq_some_iff.mp h
  simp only at h
  split at h
  · next found hfound =>
    obtain rfl := Option.some.inj h
    split at hfound
    · obtain ⟨around, haround, hbound⟩ := localAbove?_bound hfound
      exact .bound haround hbound
    · cases hfound
  · split at h
    · next found hfound =>
      obtain rfl := Option.some.inj h
      obtain ⟨t, ht, hmember⟩ := List.exists_of_findSome?_eq_some hfound
      obtain ⟨owner, hown⟩ := memberOfType?_eq_some hmember
      exact .member hkind hname ht hown
    · obtain ⟨meaning, -, rfl⟩ := Option.map_eq_some_iff.mp h
      exact .global h

theorem memberAccess?_refers {q : Queries} {c receiver member : Cursor}
    (hkind : c.kind = .memberAccessExpression) (hreceiver : c.expression? = some receiver)
    (hmember : c.accessedName? = some member) (h : m.memberAccess? q receiver member = some symbol) :
    m.Refers q c symbol := by
  obtain ⟨name, hname, h⟩ := Option.bind_eq_some_iff.mp h
  split at h
  · obtain ⟨meaning, hmeaning, rfl⟩ := Option.map_eq_some_iff.mp h
    exact .inSpace hreceiver hmeaning
  · next ty hty =>
    obtain ⟨owner, hown⟩ := memberOfType?_eq_some h
    exact .ofType hkind hreceiver hmember hname hty hown
  · cases h
  · next value _ _ _ hvalue =>
    obtain ⟨ty, hty, h⟩ := Option.bind_eq_some_iff.mp h
    exact .ofValue hkind hreceiver hmember hname (.inr ⟨value, hvalue, hty⟩)
      (memberOfValue?_eq_some h)
  · obtain ⟨ty, hty, h⟩ := Option.bind_eq_some_iff.mp h
    exact .ofValue hkind hreceiver hmember hname (.inl hty) (memberOfValue?_eq_some h)

theorem symbolOfWith_refers {q : Queries} {c : Cursor} (h : m.symbolOfWith q c = some symbol) :
    m.Refers q c.unparenthesized symbol := by
  unfold symbolOfWith at h
  simp only at h
  split at h
  case h_1 hkind => exact simpleName?_refers (by simp [hkind, Kind.isSimpleName]) h
  case h_2 hkind => exact simpleName?_refers (by simp [hkind, Kind.isSimpleName]) h
  case h_3 | h_4 =>
    obtain ⟨meaning, hmeaning, rfl⟩ := Option.map_eq_some_iff.mp h
    exact .written hmeaning
  case h_5 hkind =>
    obtain ⟨receiver, hreceiver, h⟩ := Option.bind_eq_some_iff.mp h
    obtain ⟨member, hmember, h⟩ := Option.bind_eq_some_iff.mp h
    exact memberAccess?_refers hkind hreceiver hmember h
  case h_6 => cases h

/-- A symbol is a type or a namespace, or a construct around the expression gives it, or it is
found for the name that is written alone or behind the dot. -/
theorem Refers.origin {q : Queries} {c : Cursor} (h : m.Refers q c symbol) :
    (∃ meaning : NameMeaning, symbol = meaning.symbol) ∨
    (∃ around ∈ c.ancestors.tail, Bound m q around symbol) ∨
    ∃ written at_ ty name arguments, (c.kind.isSimpleName = true ∧ written = c ∨
        c.kind = .memberAccessExpression ∧ c.accessedName? = some written) ∧
      written.name? = some name ∧ m.MemberOf at_ ty name arguments symbol := by
  cases h with
  | bound haround h => exact .inr (.inl ⟨_, haround, h⟩)
  | global | written | inSpace => exact .inl ⟨_, rfl⟩
  | member hkind hname _ h => exact .inr (.inr ⟨_, _, _, _, _, .inl ⟨hkind, rfl⟩, hname, .own h⟩)
  | ofType hkind _ hmember hname _ h =>
      exact .inr (.inr ⟨_, _, _, _, _, .inr ⟨hkind, hmember⟩, hname, .own h⟩)
  | ofValue hkind _ hmember hname _ h =>
      exact .inr (.inr ⟨_, _, _, _, _, .inr ⟨hkind, hmember⟩, hname, h⟩)

/-- Extension methods of a value are found behind a dot only. -/
theorem Refers.of_extension {q : Queries} {c : Cursor} {candidates : List MethodId}
    {receiver? : Option Ty} (h : m.Refers q c (.methods candidates receiver? (some ty))) :
    c.kind = .memberAccessExpression ∧ ∃ receiver, c.expression? = some receiver := by
  generalize hsymbol : Symbol.methods candidates receiver? (some ty) = symbol at h
  have hnot : ¬symbol.IsOrdinary := by simp [← hsymbol, Symbol.IsOrdinary]
  cases h with
  | ofValue hkind hreceiver => exact ⟨hkind, _, hreceiver⟩
  | bound _ h => cases h <;> cases hsymbol
  | member _ _ _ h | ofType _ _ _ _ _ h => exact absurd h.isOrdinary hnot
  | global | written | inSpace => exact absurd (NameMeaning.isOrdinary _) hnot

/-- Extension methods of a value are called behind a dot. -/
theorem reducedReceiver?_isSome {call e : Cursor} {q : Queries} {candidates : List MethodId}
    {receiver? : Option Ty} (he : call.expression? = some e)
    (h : m.symbolOfWith q e = some (.methods candidates receiver? (some ty))) :
    ∃ receiver, reducedReceiver? call = some receiver := by
  obtain ⟨hkind, receiver, hreceiver⟩ := (symbolOfWith_refers h).of_extension
  exact ⟨receiver, by simp [reducedReceiver?, he, hkind, hreceiver]⟩

/-- A parameter that an expression means is one of a construct around it. -/
theorem symbolOfWith_parameter {root c : Cursor} {q : Queries} {p : ParameterSymbol}
    (hc : Below root c) (hroot : root.parent? = none)
    (h : m.symbolOfWith q c = some (.parameter p)) :
    ∃ around param, Below root around ∧ IsLocalParameter around param ∧
      m.declaredParameter? param = some p := by
  rcases (symbolOfWith_refers h).origin with ⟨meaning, hmeaning⟩ | ⟨around, haround, hbound⟩ |
    ⟨_, _, _, _, _, -, -, hmember⟩
  · cases meaning <;> cases hmeaning
  · have hbelow := hc.trans (below_unparenthesized c)
    cases hbound with
    | parameter hparam hp =>
        exact ⟨around, _, (hbelow.of_mem_ancestors hroot (List.mem_of_mem_tail haround)).1, hparam, hp⟩
  · exact absurd rfl (hmember.ne_parameter p)

/-! ## Declared parameters -/

theorem declaredParameter?_eq_some {param : Cursor} {p : ParameterSymbol}
    (h : m.declaredParameter? param = some p) :
    param.name? = some p.name ∧ p.node = Pointer.of param ∧ ∃ place,
      parameterPlace? param = some (place, p.ordinal) ∧
      m.parameterOwner? param place p.ordinal = some (p.owner, p.ty) := by
  obtain ⟨name, hname, h⟩ := Option.bind_eq_some_iff.mp h
  obtain ⟨⟨place, ordinal⟩, hplace, h⟩ := Option.bind_eq_some_iff.mp h
  obtain ⟨⟨owner, ty⟩, howner, h⟩ := Option.bind_eq_some_iff.mp h
  obtain rfl := Option.some.inj h
  exact ⟨hname, rfl, place, hplace, howner⟩

/-- A parameter of a list belongs to the construct around the list. -/
theorem parameterPlace?_eq_some {param place : Cursor} {ordinal : Nat}
    (h : parameterPlace? param = some (place, ordinal)) :
    ∃ parent, param.parent? = some parent ∧
      (parent.kind = .parameterList ∧ parent.parent? = some place ∨
        parent.kind = .simpleLambdaExpression ∧ place = parent) := by
  obtain ⟨parent, hparent, h⟩ := Option.bind_eq_some_iff.mp h
  refine ⟨parent, hparent, ?_⟩
  split at h
  · next hkind =>
    obtain ⟨place', -, h⟩ := Option.bind_eq_some_iff.mp h
    obtain ⟨grandparent, hgrandparent, h⟩ := Option.bind_eq_some_iff.mp h
    obtain ⟨rfl, -⟩ := Prod.mk.inj (Option.some.inj h)
    exact .inl ⟨hkind, hgrandparent⟩
  · next hkind =>
    obtain ⟨rfl, -⟩ := Prod.mk.inj (Option.some.inj h)
    exact .inr ⟨hkind, rfl⟩
  · cases h

/-- A parameter belongs to a method only if the construct is no lambda. -/
theorem parameterOwner?_lambda {param place : Cursor} {ordinal : Nat} {owner : ParameterOwner}
    {ty : Ty} (hkind : place.kind.isLambda = true)
    (h : m.parameterOwner? param place ordinal = some (owner, ty)) :
    owner = .lambda (Pointer.of place) := by
  unfold parameterOwner? at h
  split at h
  case h_4 | h_5 => exact ((Prod.mk.inj (Option.some.inj h)).1).symm
  all_goals simp_all [Kind.isLambda]

theorem mem_of_mem_parameters {c param : Cursor} (h : param ∈ c.parameters) :
    ∃ list ∈ c.children, list.kind = .parameterList ∧ param ∈ list.children ∧
      param.kind = .parameter := by
  cases hlist : c.parameterList? with
  | none => simp [parameters, hlist] at h
  | some list =>
      obtain ⟨hmem, hkind⟩ := mem_children_of_child? hlist
      have hparam : param ∈ list.childrenOfKind .parameter := by
        simpa [parameters, hlist, listedParameters] using h
      obtain ⟨hparam, hparamKind⟩ := mem_children_of_mem_childrenOfKind hparam
      exact ⟨list, hmem, hkind, hparam, hparamKind⟩

theorem place_of_isLocalParameter {around param place : Cursor} {ordinal : Nat}
    (hlocal : IsLocalParameter around param) (h : parameterPlace? param = some (place, ordinal)) :
    place = around := by
  obtain ⟨parent, hparent, hplace⟩ := parameterPlace?_eq_some h
  have listed (hmem : param ∈ around.parameters) : place = around := by
    obtain ⟨list, hlist, hkind, hparam, -⟩ := mem_of_mem_parameters hmem
    have hup := parent?_of_mem_elements (mem_elements_of_mem_children hparam)
    obtain rfl : parent = list := Option.some.inj (hparent.symm.trans hup)
    rcases hplace with ⟨-, hplace⟩ | ⟨hlambda, -⟩
    · have hup := parent?_of_mem_elements (mem_elements_of_mem_children hlist)
      exact Option.some.inj (hplace.symm.trans hup)
    · simp [hkind] at hlambda
  rcases hlocal with ⟨hlambda, hmem⟩ | ⟨-, hmem⟩
  · unfold lambdaParameters at hmem
    split at hmem
    · next hkind =>
      have hmem := (mem_children_of_mem_childrenOfKind hmem).1
      have hup := parent?_of_mem_elements (mem_elements_of_mem_children hmem)
      obtain rfl : parent = around := Option.some.inj (hparent.symm.trans hup)
      rcases hplace with ⟨hlist, -⟩ | ⟨-, hplace⟩
      · simp [hlist] at hkind
      · exact hplace
    · exact listed hmem
  · exact listed hmem

/-- A parameter with a name in the list of a method has a type. -/
theorem type?_of_mem_parameters {text : String} {t : Tree} (hfile : IsFile text t)
    {around param : Cursor} (haround : Below (.root t) around) (hkind : DeclaresMethod around)
    (hparam : param ∈ around.parameters) {name : String} (hname : param.name? = some name) :
    ∃ written, param.type? = some written := by
  obtain ⟨list, hlist, hlistKind, hmem, hparamKind⟩ := mem_of_mem_parameters hparam
  have htyped := hfile.namedIsTyped haround hkind (mem_elements_of_mem_children hlist) hlistKind
    (mem_elements_of_mem_children hmem) hparamKind
  obtain ⟨token, htoken, -⟩ := Option.map_eq_some_iff.mp hname
  have htokenKind := List.find?_some (p := fun t : Cursor => t.kind == .identifier) htoken
  obtain ⟨htokenMem, hisToken⟩ := List.mem_filter.mp (List.mem_of_find?_eq_some htoken)
  obtain ⟨type, htype, hnode, htypeKind⟩ := htyped.exists_type
    ⟨token.focus, focus_mem_of_mem_elements htokenMem, hisToken, beq_iff_eq.mp htokenKind⟩
  obtain ⟨e, he, rfl⟩ := exists_mem_elements htype
  exact childOf?_isSome (List.mem_filter.mpr ⟨he, hnode⟩) htypeKind

/-- The parameter of a method that an expression of a file means: its pointer leads
to a parameter of the file, which has a type. -/
theorem resolve_of_symbolOf? {text : String} {t : Tree} (hfile : IsFile text t) {c : Cursor}
    {p : ParameterSymbol} {id : MethodId} (hc : Below (.root t) c)
    (h : m.symbolOf? c = some (.parameter p)) (howner : p.owner = .method id) :
    ∃ param, Below (.root t) param ∧ param.isNode = true ∧ param.kind = .parameter ∧
      p.node = Pointer.of param ∧ p.node.resolve (.root t) = .ok (some param) ∧
      ∃ written, param.type? = some written := by
  obtain ⟨around, param, haround, hlocal, hp⟩ := symbolOfWith_parameter hc rfl h
  obtain ⟨hname, hnode, place, hplace, hplaceOwner⟩ := declaredParameter?_eq_some hp
  obtain rfl := place_of_isLocalParameter hlocal hplace
  rcases hlocal with ⟨hlambda, -⟩ | ⟨hmethod, hmem⟩
  · have hlambdaOwner := parameterOwner?_lambda hlambda hplaceOwner
    rw [howner] at hlambdaOwner
    cases hlambdaOwner
  · obtain ⟨list, hlist, -, hparam, hkind⟩ := mem_of_mem_parameters hmem
    have hbelow := (haround.trans (below_of_mem_children hlist)).trans (below_of_mem_children hparam)
    have hisNode := isNode_of_mem_children hparam
    refine ⟨param, hbelow, hisNode, hkind, hnode, ?_, ?_⟩
    · rw [hnode]
      exact hfile.resolve_parameter hbelow hisNode hkind hname
    · exact type?_of_mem_parameters hfile haround hmethod hmem hname

end Model

end CSharpKit.Semantics
