import CSharpKit.Semantics.Symbols

/-! # Conversions

Which values can stand where a type is expected without a cast. Where a type is
unknown nothing is refused, so that one unresolved name does not make every call
around it fail. -/

namespace CSharpKit.Semantics

open Syntax

/-- How a value is converted to an expected type. -/
inductive Conversion where
  /-- The types are the same. -/
  | identity
  | implicit
  /-- One of the types is not known. -/
  | unknown
  deriving DecidableEq

namespace Conversion

/-- How much a conversion speaks for a method among others. -/
def weight : Conversion → Nat
  | .identity => 2
  | .implicit => 1
  | .unknown => 0

/-- The numeric types, by their keywords, that hold every value of one. -/
def widerThan : Kind → List Kind
  | .sbyteKw => [.shortKw, .intKw, .longKw, .floatKw, .doubleKw, .decimalKw]
  | .byteKw =>
    [.shortKw, .ushortKw, .intKw, .uintKw, .longKw, .ulongKw, .floatKw, .doubleKw, .decimalKw]
  | .shortKw => [.intKw, .longKw, .floatKw, .doubleKw, .decimalKw]
  | .ushortKw => [.intKw, .uintKw, .longKw, .ulongKw, .floatKw, .doubleKw, .decimalKw]
  | .intKw => [.longKw, .floatKw, .doubleKw, .decimalKw]
  | .uintKw => [.longKw, .ulongKw, .floatKw, .doubleKw, .decimalKw]
  | .longKw | .ulongKw => [.floatKw, .doubleKw, .decimalKw]
  | .charKw => [.ushortKw, .intKw, .uintKw, .longKw, .ulongKw, .floatKw, .doubleKw, .decimalKw]
  | .floatKw => [.doubleKw]
  | _ => []

/-- Whether a definition inherits from another, as a class or directly. -/
def inherits (s : SymbolTable) (source target : TypeId) : Bool :=
  s.isSubclass source target || (s.baseChain source).any fun c => (s.directBases c).contains target

/-- Whether values of one definition convert to another. Types with keywords
convert to wider ones only. -/
def betweenDefinitions (s : SymbolTable) (source target : TypeId) : Bool :=
  match (s.type source).keyword?, (s.type target).keyword? with
  | some a, some b => (widerThan a).contains b
  | _, _ => inherits s source target

/-- The conversion of a value to an expected type. -/
def find? (s : SymbolTable) (source : Ty) (target : Ty) : Option Conversion :=
  if source = target then some .identity
  else
    match source, target with
    | .error _, _ | _, .error _ | _, .param .. | .param .., _ => some .unknown
    | .null, .named d _ => if (s.type d).isReference then some .implicit else none
    | .null, .nullable _ | .null, .array .. => some .implicit
    | .named a _, .named b _ =>
      if some b = s.objectType? || betweenDefinitions s a b then some .implicit else none
    | _, .named b _ => if some b = s.objectType? then some .implicit else none
    | _, .nullable inner => (find? s source inner).map fun _ => .implicit
    | .array a m, .array b n => if m = n then (find? s a b).map fun _ => .implicit else none
    | _, _ => none
termination_by structural target

end Conversion

end CSharpKit.Semantics
