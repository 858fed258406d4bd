import CSharpKit.Semantics.Conversion

/-! # Overload resolution

Which of several methods a call means. Each argument is laid against a
parameter, the type arguments are inferred, and every argument has to convert.
Among the methods that remain the one whose conversions speak most for it is
meant; if two are equally good, none is. -/

namespace CSharpKit.Semantics

/-- What is known of an argument before the method is chosen. -/
inductive ArgumentShape where
  | typed (ty : Ty)
  | lambda (parameters : Nat)
  | unknown
  deriving DecidableEq

/-- The parameter that takes an argument. An expanded one takes it as an element
of its array. -/
structure Slot where
  parameter : Nat
  expanded : Bool
  deriving DecidableEq

namespace Slot

/-- The parameter for an argument by its name, or by its place. With an array
parameter at `arrayAt?` all arguments from there on are its elements. -/
def find? (params : List ParameterInfo) (arrayAt? : Option Nat) (place : Nat) :
    Option String → Option Slot
  | some name => (params.findIdx? (·.name == name)).map fun i => ⟨i, false⟩
  | none =>
    match arrayAt?.filter (· ≤ place) with
    | some last => some ⟨last, true⟩
    | none => if place < params.length then some ⟨place, false⟩ else none

/-- The place of the array parameter that takes single elements, if there is one. -/
def arrayPlace? (params : List ParameterInfo) : Option Nat :=
  (params.getLast?.filter (·.isParams)).map fun _ => params.length - 1

/-- Lays arguments, given by their names, against parameters of which the first
`bound` are taken. Every parameter without a default needs an argument, save an
array that takes single elements. -/
def assign? (params : List ParameterInfo) (names : List (Option String)) (expanded : Bool)
    (bound : Nat) : Option (List Slot) := do
  let arrayAt? := if expanded then arrayPlace? params else none
  guard ((!expanded || arrayAt?.isSome) && bound ≤ params.length)
  let slots ← names.zipIdx.mapM fun (name, i) => find? params arrayAt? (i + bound) name
  guard (params.zipIdx.all fun (p, i) =>
    i < bound || slots.any (·.parameter == i) || p.hasDefault || (expanded && p.isParams))
  return slots

/-- The type a slot expects, seen through the receiver of the call. -/
def target (slot : Slot) (receiver? : Option Ty) (ty : Ty) : Ty :=
  match Ty.through? receiver? ty with
  | .array element rank => if slot.expanded then element else .array element rank
  | seen => seen

end Slot

/-- What a call says beside its arguments. -/
structure CallForm where
  /-- The type the method is called on. -/
  receiver? : Option Ty
  /-- The type of the value an extension method is called on; it goes to the
  first parameter. -/
  thisArgument? : Option Ty
  /-- The type arguments that are written. -/
  explicit? : Option (List Ty)

/-- The arguments of a call: their names and what is known of them. -/
structure CallArguments where
  names : List (Option String)
  shapes : List ArgumentShape

/-- How a method fits a call: with which type arguments, what its conversions
speak for it, and whether it is taken in its normal form. -/
structure Fit where
  typeArguments : List Ty
  score : Nat
  isNormal : Bool

namespace Fit

/-- Fits are compared by their score, and then by their form. -/
def rank (fit : Fit) : Nat := 2 * fit.score + if fit.isNormal then 1 else 0

/-- What the conversion of an argument speaks for a method, if there is one. -/
def weight? (s : SymbolTable) (target : Ty) : ArgumentShape → Option Nat
  | .unknown => some 0
  | .typed ty => (Conversion.find? s ty target).map Conversion.weight
  | .lambda n =>
    match target with
    | .named d _ => do
      let invoke ← s.invoke? d
      if (s.method invoke).params.length = n then some 1 else none
    | .param .. | .error _ => some 0
    | _ => none

/-- The type that a parameter of a method's own type stands for, if the argument
in its slot has a type. -/
def inferred? (s : SymbolTable) (method : MethodId) (receiver? : Option Ty) (index : Nat)
    (slot : Slot) : ArgumentShape → Option Ty
  | .typed ty => do
    let param ← (s.method method).params[slot.parameter]?
    match slot.target receiver? param.ty with
    | .param (.method owner) i _ =>
      if owner = method && i = index && ty != .null then some ty else none
    | _ => none
  | _ => none

/-- The type arguments of a call that writes none: for each parameter the first
argument that stands in a place of just its type. -/
def infer (s : SymbolTable) (method : MethodId) (receiver? : Option Ty)
    (arguments : List (Slot × ArgumentShape)) : List Ty :=
  (s.method method).typeParams.zipIdx.map fun (name, index) =>
    (arguments.findSome? fun (slot, shape) =>
      inferred? s method receiver? index slot shape).getD (.error name)

/-- How a method fits a call in its normal or its expanded form. -/
def inForm? (s : SymbolTable) (method : MethodId) (form : CallForm) (args : CallArguments)
    (expanded : Bool) : Option Fit := do
  let params := (s.method method).params
  let bound := if form.thisArgument?.isSome then 1 else 0
  let slots ← Slot.assign? params args.names expanded bound
  let own := form.thisArgument?.toList.map fun ty => (⟨0, false⟩, ArgumentShape.typed ty)
  let laid : List (Slot × ArgumentShape) := own ++ slots.zip args.shapes
  let typeArguments := form.explicit?.getD (infer s method form.receiver? laid)
  let weights ← laid.mapM fun (slot, shape) => do
    let param ← params[slot.parameter]?
    weight? s ((slot.target form.receiver? param.ty).substitute (.method method) typeArguments)
      shape
  return ⟨typeArguments, weights.foldl (· + ·) 0, !expanded⟩

/-- How a method fits a call. The normal form goes before the expanded one. -/
def find? (s : SymbolTable) (method : MethodId) (form : CallForm) (args : CallArguments) :
    Option Fit :=
  match inForm? s method form args false with
  | some fit => some fit
  | none => inForm? s method form args true

/-- The best of the entries seen so far, and whether another one is as good. -/
structure Lead where
  method : MethodId
  rank : Nat
  isTied : Bool

/-- The lead once one more entry is seen. -/
def Lead.next (lead? : Option Lead) (entry : MethodId × Nat) : Option Lead :=
  match lead? with
  | none => some ⟨entry.1, entry.2, false⟩
  | some lead =>
    if entry.2 < lead.rank then some lead
    else if entry.2 = lead.rank then some { lead with isTied := true }
    else some ⟨entry.1, entry.2, false⟩

/-- The entry with the greatest rank; none if two share it. -/
def unique? (ranked : List (MethodId × Nat)) : Option MethodId :=
  ((ranked.foldl Lead.next none).filter fun lead => !lead.isTied).map Lead.method

/-- The method among candidates that a call means. Written type arguments have to
be as many as the method's type parameters. -/
def choose? (s : SymbolTable) (candidates : List MethodId) (form : CallForm)
    (args : CallArguments) : Option MethodId :=
  unique? (candidates.filterMap fun m =>
    if form.explicit?.any (·.length != (s.method m).typeParams.length) then none
    else (find? s m form args).map fun fit => (m, fit.rank))

end Fit

end CSharpKit.Semantics
