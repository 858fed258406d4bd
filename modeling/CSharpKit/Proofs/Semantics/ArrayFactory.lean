import CSharpKit.Proofs.Semantics.Passes
import CSharpKit.Semantics.Model
import Mathlib.Data.Option.Basic

/-!
# Calls of `ImmutableArray.Create`

Of the three methods `Create` one takes an item and one takes an array of items. Which
of them a call with one argument means hangs on how the argument converts to the
element type and to arrays of it: if it converts to both equally well, neither is
meant. Otherwise the call gives an immutable array of the element type.
-/

namespace CSharpKit.Semantics

open Syntax Workspace

namespace Framework

/-- The definition of immutable arrays. -/
def immutableArray : TypeId :=
  (table.typeByPath? "System.Collections.Immutable" "ImmutableArray" 1).getD default

/-- The class that makes immutable arrays. -/
def arrayClass : TypeId :=
  (table.typeByPath? "System.Collections.Immutable" "ImmutableArray" 0).getD default

/-- The methods `Create`: without arguments, of an item, and of an array of items. -/
def create (n : Nat) : MethodId := ((table.methodsOf .ordinary arrayClass)[n]?).getD default

/-- What the table tells of a method `Create`. -/
def createInfo (n : Nat) (params : Ty → List ParameterInfo) : MethodInfo :=
  let element : Ty := .param (.method (create n)) 0 "T"
  { name := "Create", kind := .ordinary, owner := arrayClass, typeParams := ["T"]
    params := params element, returnTy := .named immutableArray [element], isStatic := true }

theorem methodsOf_arrayClass :
    table.methodsOf .ordinary arrayClass = [create 0, create 1, create 2] := by
  decide +kernel

theorem method_create : table.method (create 0) = createInfo 0 (fun _ => []) ∧
    table.method (create 1) = createInfo 1 (fun t => [{ name := "item", ty := t }]) ∧
    table.method (create 2) =
      createInfo 2 (fun t => [{ name := "items", ty := .array t 1, isParams := true }]) := by
  decide +kernel

attribute [irreducible] immutableArray arrayClass create

theorem valueless_arrayClass : Valueless arrayClass table := by
  have hall : (∀ value ∈ table.fields, value.owner ≠ arrayClass) ∧
      ∀ value ∈ table.properties, value.owner ≠ arrayClass := by
    decide +kernel
  exact ⟨fun i value h => hall.1 value (Array.mem_of_getElem? h),
    fun i value h => hall.2 value (Array.mem_of_getElem? h)⟩

theorem create_lt : (create 0).num < table.methods.size ∧ (create 1).num < table.methods.size ∧
    (create 2).num < table.methods.size ∧ arrayClass.num < table.types.size := by
  decide +kernel

end Framework

open Framework

variable {s : SymbolTable}

/-- A table with the methods `Create` of the framework. -/
structure HasFactory (s : SymbolTable) : Prop where
  methods : s.methodsOf .ordinary arrayClass = [create 0, create 1, create 2]
  empty : s.method (create 0) = createInfo 0 fun _ => []
  item : s.method (create 1) = createInfo 1 fun t => [{ name := "item", ty := t }]
  items : s.method (create 2) =
    createInfo 2 fun t => [{ name := "items", ty := .array t 1, isParams := true }]
  valueless : Valueless arrayClass s

theorem hasFactory_ofProject (project : Project) : HasFactory (.ofProject project) := by
  obtain ⟨hempty, hitem, hitems, hfactory⟩ := create_lt
  refine ⟨?_, ?_, ?_, ?_, valueless_ofProject project hfactory valueless_arrayClass⟩
  · rw [methodsOf_framework project (by decide) hfactory, methodsOf_arrayClass]
  · rw [method_framework project hempty, method_create.1]
  · rw [method_framework project hitem, method_create.2.1]
  · rw [method_framework project hitems, method_create.2.2]

/-! ## Calls with one argument -/

/-- The slot of an argument at the only parameter of a method. -/
theorem Slot.assign?_only (param : ParameterInfo) (name? : Option String)
    (hdefault : param.hasDefault = false) : Slot.assign? [param] [name?] false 0 =
      if name?.all (· == param.name) then some [⟨0, false⟩] else none := by
  cases name? with
  | none => simp [assign?, find?, hdefault]
  | some name =>
      by_cases h : name = param.name
      · simp [assign?, find?, hdefault, h]
      · simp [assign?, find?, h, Ne.symm h]

/-- An array parameter takes an argument as its element if the argument has no name. -/
theorem Slot.assign?_only_expanded (param : ParameterInfo) (name? : Option String)
    (hdefault : param.hasDefault = false) : Slot.assign? [param] [name?] true 0 =
      if param.isParams && name?.all (· == param.name) then some [⟨0, name?.isNone⟩] else none := by
  cases hparams : param.isParams with
  | false =>
      simp [assign?, arrayPlace?, hparams, Option.filter]
  | true =>
      cases name? with
      | none => simp [assign?, find?, hdefault, arrayPlace?, hparams, Option.filter]
      | some name =>
          by_cases h : name = param.name
          · simp [assign?, find?, hdefault, arrayPlace?, hparams, Option.filter, h]
          · simp [assign?, find?, arrayPlace?, hparams, Option.filter, h, Ne.symm h]

section

variable {m : MethodId} {shape : ArgumentShape} {slot : Slot} {param : ParameterInfo}

/-- A method that has no slot for an argument does not fit. -/
theorem Fit.inForm?_of_assign?_none {form : CallForm} {args : CallArguments} {expanded : Bool}
    (hthis : form.thisArgument? = none)
    (h : Slot.assign? (s.method m).params args.names expanded 0 = none) :
    Fit.inForm? s m form args expanded = none := by
  simp [Fit.inForm?, hthis, h]

/-- How a method fits a call with one argument: the argument has to convert to the type
of its slot. -/
theorem Fit.inForm?_one {form : CallForm} {name? : Option String} {expanded : Bool}
    {types : List Ty} {target : Ty} (hthis : form.thisArgument? = none)
    (hslot : Slot.assign? (s.method m).params [name?] expanded 0 = some [slot])
    (hparam : (s.method m).params[slot.parameter]? = some param)
    (htypes : form.explicit?.getD (Fit.infer s m form.receiver? [(slot, shape)]) = types)
    (htarget : (slot.target form.receiver? param.ty).substitute (.method m) types = target) :
    Fit.inForm? s m form ⟨[name?], [shape]⟩ expanded =
      (Fit.weight? s target shape).map fun w => ⟨types, w, !expanded⟩ := by
  subst htypes htarget
  simp only [Fit.inForm?, hthis, Option.isSome_none, Bool.false_eq_true, if_false, hslot,
    Option.toList_none, List.map_nil, List.nil_append, List.zip_cons_cons, List.zip_nil_right,
    Option.bind_eq_bind, Option.bind_some, List.mapM_cons, List.mapM_nil, hparam, Option.pure_def]
  cases Fit.weight? s _ shape with
  | none => rfl
  | some w => simp

/-- What stands for a type parameter if the argument tells it. -/
def inferredElement : ArgumentShape → Ty
  | .typed ty => if ty = .null then .error "T" else ty
  | _ => .error "T"

/-- The type argument is that of the argument if the slot expects just that. -/
theorem Fit.infer_one {receiver? : Option Ty} (hparams : (s.method m).typeParams = ["T"])
    (hparam : (s.method m).params[slot.parameter]? = some param)
    (htarget : slot.target receiver? param.ty = .param (.method m) 0 "T") :
    Fit.infer s m receiver? [(slot, shape)] = [inferredElement shape] := by
  rw [Fit.infer, hparams]
  cases shape with
  | typed ty =>
      by_cases hnull : ty = .null <;>
        simp [Fit.inferred?, hparam, htarget, inferredElement, hnull]
  | lambda | unknown => simp [Fit.inferred?, inferredElement]

/-- A slot that expects an array tells no type argument. -/
theorem Fit.infer_array {receiver? : Option Ty} {element : Ty} {rank : Nat}
    (hparams : (s.method m).typeParams = ["T"])
    (hparam : (s.method m).params[slot.parameter]? = some param)
    (htarget : slot.target receiver? param.ty = .array element rank) :
    Fit.infer s m receiver? [(slot, shape)] = [.error "T"] := by
  rw [Fit.infer, hparams]
  cases shape <;> simp [Fit.inferred?, hparam, htarget]

end

/-- Of two entries the one with the greater rank counts, if there is one. -/
theorem Fit.unique?_pair (m n : MethodId) (a b : Nat) : Fit.unique? [(m, a), (n, b)] =
    if b < a then some m else if a < b then some n else none := by
  rcases Nat.lt_trichotomy a b with h | rfl | h
  · simp [Fit.unique?, Fit.Lead.next, h.not_gt, h.ne', h]
  · simp [Fit.unique?, Fit.Lead.next]
  · simp [Fit.unique?, Fit.Lead.next, h]

/-- Only a type itself converts to it by the identity. -/
theorem Conversion.find?_eq_identity_iff {source target : Ty} :
    Conversion.find? s source target = some .identity ↔ source = target := by
  constructor
  · intro h
    unfold Conversion.find? at h
    by_cases heq : source = target
    · exact heq
    · rw [if_neg heq] at h
      split at h <;> simp at h
  · rintro rfl
    unfold Conversion.find?
    rw [if_pos rfl]

/-- A call of the factory with one argument, which may write a type argument and the
name of a parameter. -/
structure ItemCall where
  explicit? : Option Ty
  name? : Option String
  shape : ArgumentShape

namespace ItemCall

def form (call : ItemCall) : CallForm :=
  ⟨some (.plain arrayClass), none, call.explicit?.map fun ty => [ty]⟩

def arguments (call : ItemCall) : CallArguments := ⟨[call.name?], [call.shape]⟩

/-- The element type that the method for an item is taken with: the one that is
written, or that of the argument. -/
def element (call : ItemCall) : Ty := call.explicit?.getD (inferredElement call.shape)

/-- The element type that the method for an array is taken with. It is not inferred. -/
def arrayElement (call : ItemCall) : Ty := call.explicit?.getD (.error "T")

/-- How well the argument stands for a parameter of a name and a type. -/
def standsFor? (call : ItemCall) (s : SymbolTable) (name : String) (ty : Ty) : Option Nat :=
  if call.name?.all (· == name) then Fit.weight? s ty call.shape else none

/-- How well the argument stands for an item. -/
def asItem? (call : ItemCall) (s : SymbolTable) : Option Nat :=
  call.standsFor? s "item" call.element

/-- How well the argument stands for the array of all items. -/
def asArray? (call : ItemCall) (s : SymbolTable) : Option Nat :=
  call.standsFor? s "items" (.array call.arrayElement 1)

/-- The method that a call means, with its type argument: that for the item or that
for the array, whichever the argument fits better. -/
def meant? (call : ItemCall) (s : SymbolTable) : Option (MethodId × Ty) :=
  match call.asItem? s, call.asArray? s with
  | some a, some b =>
    if b < a then some (create 1, call.element)
    else if a < b then some (create 2, call.arrayElement) else none
  | some _, none => some (create 1, call.element)
  | none, some _ => some (create 2, call.arrayElement)
  | none, none => none

/-- The type of what a call gives. -/
def ty? (call : ItemCall) (s : SymbolTable) : Option Ty :=
  (call.meant? s).map fun meant => .named immutableArray [meant.2]

variable (call : ItemCall)

theorem meant?_cases {call : ItemCall} {m : MethodId} {ty : Ty}
    (h : call.meant? s = some (m, ty)) :
    (m = create 1 ∧ ty = call.element ∧ ∃ w, call.asItem? s = some w) ∨
      m = create 2 ∧ ty = call.arrayElement ∧ ∃ w, call.asArray? s = some w := by
  rw [meant?] at h
  split at h
  · next a b ha hb =>
    split at h
    · cases h
      exact .inl ⟨rfl, rfl, a, ha⟩
    · split at h
      · cases h
        exact .inr ⟨rfl, rfl, b, hb⟩
      · cases h
  · next a ha _ =>
    cases h
    exact .inl ⟨rfl, rfl, a, ha⟩
  · next b _ hb =>
    cases h
    exact .inr ⟨rfl, rfl, b, hb⟩
  · cases h

/-- With a type argument that is written, both methods give the same; but a call means
neither if its argument stands for both equally well, or for neither. -/
theorem ty?_written (ty : Ty) (name? : Option String) (shape : ArgumentShape) :
    ty? ⟨some ty, name?, shape⟩ s =
      if asItem? ⟨some ty, name?, shape⟩ s = asArray? ⟨some ty, name?, shape⟩ s then none
      else some (.named immutableArray [ty]) := by
  rw [ty?, meant?]
  cases asItem? ⟨some ty, name?, shape⟩ s with
  | none => cases asArray? ⟨some ty, name?, shape⟩ s <;> rfl
  | some a =>
      cases asArray? ⟨some ty, name?, shape⟩ s with
      | none => rfl
      | some b =>
          rcases Nat.lt_trichotomy a b with h | rfl | h
          · simp [h, h.ne, Nat.not_lt.mpr h.le, arrayElement]
          · simp
          · simp [h, h.ne', element]

/-- Without a type argument the type of the argument is that of the item. -/
theorem ty?_inferred {ty : Ty} {name? : Option String} (hname : name?.all (· == "item"))
    (hnull : ty ≠ .null) (harray : ty ≠ .array (.error "T") 1) :
    ty? ⟨none, name?, .typed ty⟩ s = some (.named immutableArray [ty]) := by
  have helement : element ⟨none, name?, .typed ty⟩ = ty := if_neg hnull
  have hitem : asItem? ⟨none, name?, .typed ty⟩ s = some 2 := by
    rw [asItem?, standsFor?, if_pos hname, helement, Fit.weight?,
      Conversion.find?_eq_identity_iff.mpr rfl]
    rfl
  have hless : ∀ b, asArray? ⟨none, name?, .typed ty⟩ s = some b → b < 2 := by
    intro b hb
    rw [asArray?, standsFor?] at hb
    split at hb
    · obtain ⟨conversion, hconversion, rfl⟩ := Option.map_eq_some_iff.mp hb
      cases conversion with
      | identity => exact absurd (Conversion.find?_eq_identity_iff.mp hconversion) harray
      | implicit | unknown => decide
    · cases hb
  rw [ty?, meant?, hitem, helement]
  cases hb : asArray? ⟨none, name?, .typed ty⟩ s with
  | none => rfl
  | some b => simp [hless b hb]

/-- As an element of its array type, a type parameter is what a method is taken with. -/
theorem substitute_param (m : MethodId) (ty : Ty) :
    (Ty.param (.method m) 0 "T").substitute (.method m) [ty] = ty := by
  simp [Ty.substitute]

theorem explicit?_form (types : List Ty) (ty : Ty) (h : types = [ty]) :
    call.form.explicit?.getD types = [call.explicit?.getD ty] := by
  cases hexplicit : call.explicit? <;> simp [form, hexplicit, h]

variable (h : HasFactory s)
include h

theorem find?_empty : Fit.find? s (create 0) call.form call.arguments = none := by
  have hnone (expanded : Bool) : Slot.assign? (s.method (create 0)).params
      call.arguments.names expanded 0 = none := by
    rw [h.empty]
    cases expanded <;> cases hname : call.name? <;> simp [arguments, hname] <;> rfl
  rw [Fit.find?, Fit.inForm?_of_assign?_none rfl (hnone false),
    Fit.inForm?_of_assign?_none rfl (hnone true)]

theorem find?_item : Fit.find? s (create 1) call.form call.arguments =
    (call.asItem? s).map fun w => ⟨[call.element], w, true⟩ := by
  have hexpanded : Fit.inForm? s (create 1) call.form call.arguments true = none := by
    refine Fit.inForm?_of_assign?_none rfl ?_
    rw [h.item]
    exact Slot.assign?_only_expanded _ _ rfl
  have hslot := Slot.assign?_only { name := "item", ty := .param (.method (create 1)) 0 "T" }
    call.name? rfl
  have hmethod : Fit.inForm? s (create 1) call.form call.arguments false =
      (call.asItem? s).map fun w => ⟨[call.element], w, true⟩ := by
    rw [asItem?, standsFor?]
    split
    · next hname =>
      rw [if_pos hname] at hslot
      exact Fit.inForm?_one rfl (by rw [h.item]; exact hslot) (by rw [h.item]; rfl)
        (call.explicit?_form _ _ (Fit.infer_one (by rw [h.item]; rfl) (by rw [h.item]; rfl) rfl))
        (substitute_param _ _)
    · next hname =>
      rw [if_neg hname] at hslot
      exact Fit.inForm?_of_assign?_none rfl (by rw [h.item]; exact hslot)
  rw [Fit.find?, hmethod, hexpanded]
  cases call.asItem? s <;> rfl

/-- An argument at the array parameter itself. -/
theorem inForm?_array {expanded : Bool} (hname : call.name?.all (· == "items"))
    (hslot : Slot.assign? (s.method (create 2)).params [call.name?] expanded 0 =
      some [⟨0, false⟩]) : Fit.inForm? s (create 2) call.form call.arguments expanded =
        (call.asArray? s).map fun w => ⟨[call.arrayElement], w, !expanded⟩ := by
  rw [asArray?, standsFor?, if_pos hname]
  refine Fit.inForm?_one rfl hslot (by rw [h.items]; rfl)
    (call.explicit?_form _ _ (Fit.infer_array (by rw [h.items]; rfl) (by rw [h.items]; rfl) rfl)) ?_
  simp [Slot.target, form, Ty.through?, Ty.throughReceiver, Ty.plain, Ty.substitute, arrayElement]

/-- A nameless argument as an element of the array parameter. -/
theorem inForm?_element (hname : call.name? = none) :
    Fit.inForm? s (create 2) call.form call.arguments true =
      (call.asItem? s).map fun w => ⟨[call.element], w, false⟩ := by
  rw [asItem?, standsFor?, if_pos (by rw [hname]; rfl)]
  refine @Fit.inForm?_one s _ _ ⟨0, true⟩ _ _ _ _ _ _ rfl ?_ (by rw [h.items]; rfl)
    (call.explicit?_form _ _ (Fit.infer_one (by rw [h.items]; rfl) (by rw [h.items]; rfl) ?_)) ?_
  · rw [h.items, hname]
    rfl
  · simp [Slot.target, form, Ty.through?, Ty.throughReceiver, Ty.plain]
  · simp [Slot.target, form, Ty.through?, Ty.throughReceiver, Ty.plain, Ty.substitute, element]

theorem find?_items : Fit.find? s (create 2) call.form call.arguments =
    match call.asArray? s with
    | some w => some ⟨[call.arrayElement], w, true⟩
    | none =>
      if call.name? = none then (call.asItem? s).map fun w => ⟨[call.element], w, false⟩
      else none := by
  have hslots (expanded : Bool) : Slot.assign? (s.method (create 2)).params [call.name?] expanded 0 =
      if call.name?.all (· == "items") then some [⟨0, expanded && call.name?.isNone⟩] else none := by
    rw [h.items]
    cases expanded
    · exact Slot.assign?_only _ _ rfl
    · exact Slot.assign?_only_expanded _ _ rfl
  by_cases hname : call.name?.all (· == "items")
  · simp only [hname, if_true] at hslots
    have hitem := inForm?_element call h
    rw [Fit.find?, call.inForm?_array h hname (hslots false)]
    cases hname? : call.name? with
    | none => cases call.asArray? s <;> simp [hitem hname?]
    | some name =>
        rw [call.inForm?_array h hname (by rw [hslots true, hname?]; rfl)]
        cases call.asArray? s <;> rfl
  · simp only [hname] at hslots
    have harray : call.asArray? s = none := if_neg hname
    have hnamed : call.name? ≠ none := fun hnone => hname (by rw [hnone]; rfl)
    rw [Fit.find?, Fit.inForm?_of_assign?_none rfl (hslots false),
      Fit.inForm?_of_assign?_none rfl (hslots true), harray]
    simp only [if_neg hnamed]

/-- Which of the methods a call means. -/
theorem choose?_create : Fit.choose? s [create 0, create 1, create 2] call.form call.arguments =
    (call.meant? s).map (·.1) := by
  have hcount (m : MethodId) (hm : (s.method m).typeParams = ["T"]) :
      call.form.explicit?.any (·.length != (s.method m).typeParams.length) = false := by
    rw [hm]
    cases hexplicit : call.explicit? <;> simp [form, hexplicit]
  have hempty := hcount (create 0) (by rw [h.empty]; rfl)
  have hitem := hcount (create 1) (by rw [h.item]; rfl)
  have hitems := hcount (create 2) (by rw [h.items]; rfl)
  simp only [Fit.choose?, List.filterMap, hempty, hitem, hitems, call.find?_empty h,
    call.find?_item h, call.find?_items h, meant?, Bool.false_eq_true, if_false, Option.map_none]
  cases call.asItem? s with
  | none => cases call.asArray? s <;> simp [Fit.unique?, Fit.Lead.next]
  | some a =>
      cases call.asArray? s with
      | none => by_cases hnamed : call.name? = none <;> simp [hnamed, Fit.rank, Fit.unique?, Fit.Lead.next]
      | some b =>
          simp only [Option.map_some, Fit.rank, if_true, Fit.unique?_pair, Nat.add_lt_add_iff_right,
            Nat.mul_lt_mul_left, Nat.zero_lt_two]
          split
          · rfl
          · split <;> rfl

/-- The method that a call means, with its type argument. -/
theorem method_of_meant {m : MethodId} {ty : Ty} (hm : call.meant? s = some (m, ty)) :
    (s.method m).typeParams = ["T"] ∧
      (s.method m).returnTy = .named immutableArray [.param (.method m) 0 "T"] ∧
      ∃ w isNormal, Fit.find? s m call.form call.arguments = some ⟨[ty], w, isNormal⟩ := by
  rcases meant?_cases hm with ⟨rfl, rfl, w, hw⟩ | ⟨rfl, rfl, w, hw⟩
  · exact ⟨by rw [h.item]; rfl, by rw [h.item]; rfl, w, true, by rw [call.find?_item h, hw]; rfl⟩
  · exact ⟨by rw [h.items]; rfl, by rw [h.items]; rfl, w, true, by rw [call.find?_items h, hw]⟩

end ItemCall

/-! ## The types of calls -/

namespace Model

variable {m : Model} {q : Queries}

/-- What `Create` means behind the class of the factory. -/
theorem memberAccess?_create (h : HasFactory m.table) {receiver name : Cursor}
    (hname : name.name? = some "Create") (harguments : name.typeArguments.length ≤ 1)
    (hreceiver : q.symbolOf receiver = some (.type (.plain arrayClass))) :
    m.memberAccess? q receiver name =
      some (.methods [create 0, create 1, create 2] (some (.plain arrayClass)) none) := by
  obtain ⟨bases, hchain⟩ := m.table.baseChain_eq_cons arrayClass
  have hvalue : m.valueNamed? arrayClass "Create" (.named arrayClass []) = none := by
    rw [valueNamed?, h.valueless.fieldsOf_eq.1, h.valueless.fieldsOf_eq.2]
    rfl
  have hmethods : m.methodsNamed arrayClass "Create" name.typeArguments.length =
      [create 0, create 1, create 2] := by
    rw [methodsNamed, h.methods]
    have hcount : name.typeArguments.length = 0 ∨ name.typeArguments.length = 1 := by omega
    rcases hcount with hcount | hcount <;>
      simp [h.empty, h.item, h.items, createInfo, hcount]
  simp only [memberAccess?, hname, Option.bind_eq_bind, Option.bind_some, hreceiver, memberOfType?,
    Ty.plain, memberHolder?, hchain, List.findSome?_cons, ownMember?, hvalue, hmethods, ite_self]

/-- The type of a call of the factory with one argument. -/
theorem typeOfWith_create (h : HasFactory m.table) {call callee argument : Cursor}
    {explicit? : Option Ty} (hkind : call.kind = .invocationExpression)
    (hcallee : call.expression? = some callee) (harguments : call.arguments = [argument])
    (hsymbol : q.symbolOf callee =
      some (.methods [create 0, create 1, create 2] (some (.plain arrayClass)) none))
    (hexplicit : m.explicitArguments? call = explicit?.map fun ty => [ty]) :
    m.typeOfWith q call =
      ItemCall.ty? ⟨explicit?, argument.argumentName?, argumentShape q argument⟩ m.table := by
  have hplain : call.unparenthesized = call := Cursor.unparenthesized_eq (by simp [hkind])
  let item : ItemCall := ⟨explicit?, argument.argumentName?, argumentShape q argument⟩
  have hform : (⟨some (.plain arrayClass), none, m.explicitArguments? call⟩ : CallForm) =
      item.form := by
    rw [hexplicit]
    rfl
  have hcall : callArguments q call = item.arguments := by
    rw [callArguments, harguments]
    rfl
  have hmeant := item.choose?_create h
  have hthis : thisArgumentWith? q call = none := by
    rw [thisArgumentWith?, hcallee, Option.bind_some, hsymbol]
  have hmethod : m.invokedMethodWith? q call = (item.meant? m.table).map (·.1) := by
    rw [invokedMethodWith?, hcallee, Option.bind_some, hsymbol]
    dsimp only
    rw [hform, hcall, hmeant]
  simp only [typeOfWith, hplain, hkind]
  rw [invocationTy?, hcallee]
  simp only [Option.bind_eq_bind, Option.bind_some, hsymbol, hmethod]
  show _ = (item.meant? m.table).map _
  cases hitem : item.meant? m.table with
  | none => rfl
  | some meant =>
      obtain ⟨method, ty⟩ := meant
      obtain ⟨hparams, hreturn, w, isNormal, hfit⟩ := item.method_of_meant h hitem
      have htypes : m.typeArgumentsWith q call method (some (.plain arrayClass)) = [ty] := by
        rw [typeArgumentsWith, hthis, hform, hcall, hfit]
      simp only [Option.map_some, Option.bind_some, hparams, hreturn, htypes]
      simp [Ty.through?, Ty.throughReceiver, Ty.plain, Ty.substitute, Ty.substituteAll]

/-- The answers that are left when a chain of questions from an expression has gone some
steps. -/
def asked (m : Model) (c : Cursor) (steps : Nat) : Queries := m.queriesWithin (chainLength c - steps)

theorem typeOf?_eq_asked (c : Cursor) : m.typeOf? c = m.typeOfWith (m.asked c 1) c := rfl

theorem symbolOf_asked (c d : Cursor) :
    (m.asked c 1).symbolOf d = m.symbolOfWith (m.asked c 2) d := rfl

/-- A call `X.Create(…)` or `X.Create<T>(…)` with one argument, with its parts: the type
`X`, the name, the type argument that it may write, and the argument. -/
structure CreateCall (call receiver name : Cursor) (written? : Option Cursor)
    (argument : Cursor) : Prop where
  kind : call.kind = .invocationExpression
  callee_eq : ∃ callee, call.expression? = some callee ∧ callee.kind = .memberAccessExpression ∧
    callee.expression? = some receiver ∧ callee.accessedName? = some name
  name_eq : name.name? = some "Create"
  written_eq : name.typeArgumentList?.map Cursor.types = written?.map fun written => [written]
  arguments : call.arguments = [argument]

/-- The type of a call `X.Create(…)` where `X` means the factory. -/
theorem typeOf?_create (h : HasFactory m.table) {call receiver name argument : Cursor}
    {written? : Option Cursor} (hcall : CreateCall call receiver name written? argument)
    (hreceiver : (m.asked call 2).symbolOf receiver = some (.type (.plain arrayClass))) :
    m.typeOf? call = ItemCall.ty? ⟨written?.map (m.scope call).resolveType,
      argument.argumentName?, argumentShape (m.asked call 1) argument⟩ m.table := by
  obtain ⟨callee, hcallee, hkind, hexpression, hname⟩ := hcall.callee_eq
  have hplain : callee.unparenthesized = callee := Cursor.unparenthesized_eq (by simp [hkind])
  have harguments : name.typeArguments.length ≤ 1 := by
    rw [Cursor.typeArguments, hcall.written_eq]
    cases written? <;> simp
  rw [typeOf?_eq_asked]
  refine typeOfWith_create h hcall.kind hcallee hcall.arguments ?_ ?_
  · rw [symbolOf_asked, symbolOfWith, hplain]
    simp only [hkind, hexpression, hname]
    exact memberAccess?_create h hcall.name_eq harguments hreceiver
  · have hnode : calleeNode? call = some name := by
      simp [calleeNode?, hcallee, hplain, hkind, hname]
    simp only [explicitArguments?, hnode, Option.bind_eq_bind, Option.bind_some]
    have hwritten := hcall.written_eq
    cases hlist : name.typeArgumentList? with
    | none =>
        rw [hlist] at hwritten
        cases written? with
        | none => rfl
        | some written => cases hwritten
    | some list =>
        rw [hlist] at hwritten
        cases written? with
        | none => cases hwritten
        | some written =>
            have htypes : list.types = [written] := Option.some.inj hwritten
            simp [htypes]

end Model

end CSharpKit.Semantics
