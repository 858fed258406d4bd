import CSharpKit.Syntax.Pointer
import CSharpKit.Workspace.Document

/-! # Types

The types that names and expressions have. A named type refers to its
definition by number; a type parameter remembers who declares it, so
replacement of the parameters of one declaration leaves all others alone. -/

namespace CSharpKit.Semantics

open Syntax Workspace

structure NamespaceId where
  num : Nat
  deriving DecidableEq, Inhabited

/-- The number of a type definition. -/
structure TypeId where
  num : Nat
  deriving DecidableEq, Inhabited

/-- The number of a method, a constructor, or the call of a delegate. -/
structure MethodId where
  num : Nat
  deriving DecidableEq, Inhabited

structure FieldId where
  num : Nat
  deriving DecidableEq, Inhabited

structure PropertyId where
  num : Nat
  deriving DecidableEq, Inhabited

/-- Where a declaration stands in the sources. -/
structure Origin where
  document : DocumentId
  pointer : Pointer
  deriving DecidableEq, Inhabited

/-- An origin as it is shown. -/
def Origin.label (o : Origin) : String := s!"{o.document}:{o.pointer.label}"

inductive TypeKind where
  | classType | structType | interfaceType | enumType | delegateType
  deriving DecidableEq, Inhabited

inductive Access where
  | publicAccess | internalAccess | protectedAccess | protectedInternal | privateProtected
  | privateAccess
  deriving DecidableEq, Inhabited

/-- The name a kind of type is shown by. -/
def TypeKind.name : TypeKind → String
  | .classType => "Class"
  | .structType => "Struct"
  | .interfaceType => "Interface"
  | .enumType => "Enum"
  | .delegateType => "Delegate"

/-- The name an accessibility is shown by. -/
def Access.name : Access → String
  | .publicAccess => "Public"
  | .internalAccess => "Internal"
  | .protectedAccess => "Protected"
  | .protectedInternal => "ProtectedInternal"
  | .privateProtected => "PrivateProtected"
  | .privateAccess => "Private"

/-- The declaration a type parameter belongs to. -/
inductive ParamOwner where
  | type (id : TypeId)
  | method (id : MethodId)
  deriving DecidableEq, Inhabited

inductive Ty where
  /-- A definition with the arguments for its own type parameters. -/
  | named (definition : TypeId) (arguments : List Ty)
  | param (owner : ParamOwner) (index : Nat) (name : String)
  | array (element : Ty) (rank : Nat)
  | nullable (inner : Ty)
  | void
  /-- The type of `null`. -/
  | null
  /-- A type that could not be resolved, with its written text. -/
  | error (text : String)
  deriving Inhabited

namespace Ty

mutual

def beq : Ty → Ty → Bool
  | .named d as, .named e bs => d == e && beqAll as bs
  | .param o i n, .param p j m => o == p && i == j && n == m
  | .array a r, .array b s => beq a b && r == s
  | .nullable a, .nullable b => beq a b
  | .void, .void => true
  | .null, .null => true
  | .error s, .error t => s == t
  | _, _ => false

def beqAll : List Ty → List Ty → Bool
  | [], [] => true
  | a :: as, b :: bs => beq a b && beqAll as bs
  | _, _ => false

end

mutual

theorem eq_of_beq : ∀ {a b : Ty}, beq a b = true → a = b
  | .named d as, .named e bs, h => by
    simp only [beq, Bool.and_eq_true, beq_iff_eq] at h
    rw [h.1, eq_of_beqAll h.2]
  | .param o i n, .param p j m, h => by
    simp only [beq, Bool.and_eq_true, beq_iff_eq] at h
    rw [h.1.1, h.1.2, h.2]
  | .array a r, .array b s, h => by
    simp only [beq, Bool.and_eq_true, beq_iff_eq] at h
    rw [eq_of_beq h.1, h.2]
  | .nullable a, .nullable b, h => by
    simp only [beq] at h
    rw [eq_of_beq h]
  | .void, .void, _ => rfl
  | .null, .null, _ => rfl
  | .error s, .error t, h => by
    simp only [beq, beq_iff_eq] at h
    rw [h]

theorem eq_of_beqAll : ∀ {as bs : List Ty}, beqAll as bs = true → as = bs
  | [], [], _ => rfl
  | a :: as, b :: bs, h => by
    simp only [beqAll, Bool.and_eq_true] at h
    rw [eq_of_beq h.1, eq_of_beqAll h.2]

end

mutual

theorem beq_self : ∀ a : Ty, beq a a = true
  | .named d as => by simp [beq, beqAll_self as]
  | .param o i n => by simp [beq]
  | .array a r => by simp [beq, beq_self a]
  | .nullable a => by simp [beq, beq_self a]
  | .void => rfl
  | .null => rfl
  | .error s => by simp [beq]

theorem beqAll_self : ∀ as : List Ty, beqAll as as = true
  | [] => rfl
  | a :: as => by simp [beqAll, beq_self a, beqAll_self as]

end

instance : DecidableEq Ty := fun a b =>
  if h : beq a b = true then isTrue (eq_of_beq h)
  else isFalse fun e => h (e ▸ beq_self a)

/-- A definition without type arguments. -/
def plain (definition : TypeId) : Ty := .named definition []

def definition? : Ty → Option TypeId
  | .named d _ => some d
  | _ => none

def arguments : Ty → List Ty
  | .named _ as => as
  | _ => []

def isError : Ty → Bool
  | .error _ => true
  | _ => false

mutual

/-- The type with the parameters of `owner` replaced by `args`, by their place. -/
def substitute (owner : ParamOwner) (args : List Ty) : Ty → Ty
  | .named d as => .named d (substituteAll owner args as)
  | .param o i n => if o = owner then (args[i]?).getD (.param o i n) else .param o i n
  | .array e r => .array (substitute owner args e) r
  | .nullable t => .nullable (substitute owner args t)
  | .void => .void
  | .null => .null
  | .error s => .error s

def substituteAll (owner : ParamOwner) (args : List Ty) : List Ty → List Ty
  | [] => []
  | t :: ts => substitute owner args t :: substituteAll owner args ts

end

/-- The type of a member seen through a receiver: the receiver's arguments stand
for the parameters of its definition. -/
def throughReceiver (receiver : Ty) (t : Ty) : Ty :=
  match receiver with
  | .named d (a :: as) => substitute (.type d) (a :: as) t
  | _ => t

/-- Like `throughReceiver`, where there may be no receiver. -/
def through? (receiver : Option Ty) (t : Ty) : Ty :=
  match receiver with
  | some r => throughReceiver r t
  | none => t

end Ty

end CSharpKit.Semantics
