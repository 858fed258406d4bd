import CSharpKit.Semantics.Declare
import CSharpKit.Semantics.Display

/-! # Symbols

What an expression or a name refers to, and which parameter a node declares. -/

namespace CSharpKit.Semantics

open Syntax Workspace

/-- What a parameter belongs to. -/
inductive ParameterOwner where
  | method (id : MethodId)
  | lambda (node : Pointer)
  deriving DecidableEq, Inhabited

structure ParameterSymbol where
  owner : ParameterOwner
  ordinal : Nat
  name : String
  ty : Ty
  /-- The node that declares it. -/
  node : Pointer
  deriving DecidableEq, Inhabited

/-- What an expression or a name refers to. -/
inductive Symbol where
  | space (id : NamespaceId)
  | type (ty : Ty)
  /-- Methods of one name. The receiver gives the type arguments of their owner;
  `thisArgument?` is the type of a value that extension methods are called on. -/
  | methods (candidates : List MethodId) (receiver? thisArgument? : Option Ty)
  | field (id : FieldId) (receiver? : Option Ty)
  | property (id : PropertyId) (receiver? : Option Ty)
  | parameter (symbol : ParameterSymbol)
  | localVariable (name : String) (declarator : Pointer) (ty : Ty)
  deriving DecidableEq, Inhabited

/-- What a name stands for, as a symbol. -/
def NameMeaning.symbol : NameMeaning → Symbol
  | .space ns => .space ns
  | .type ty => .type ty

/-- The symbols of a project, seen from one of its documents. -/
structure Model where
  table : SymbolTable
  document : DocumentId
  deriving Inhabited

/-- The type of the value a symbol stands for. -/
def SymbolTable.typeOfSymbol? (s : SymbolTable) : Symbol → Option Ty
  | .field id receiver? => some ((s.field id).ty.through? receiver?)
  | .property id receiver? => some ((s.property id).ty.through? receiver?)
  | .parameter p => some p.ty
  | .localVariable _ _ ty => some ty
  | .space _ | .type _ | .methods .. => none

/-- A definition applied to its own type parameters. -/
def SymbolTable.instanceType (s : SymbolTable) (id : TypeId) : Ty :=
  .named id ((s.type id).typeParams.zipIdx.map fun (name, i) => .param (.type id) i name)

/-- The type that a keyword names. -/
def SymbolTable.keywordTy? (s : SymbolTable) (keyword : Kind) : Option Ty :=
  (s.keywordType? keyword).map .plain

def SymbolTable.isDelegate (s : SymbolTable) (ty : Ty) : Bool :=
  ty.definition?.any fun d => (s.type d).kind == .delegateType

/-- Whether a method stands in the sources, and is not the call of a delegate. -/
def SymbolTable.isSourceMethod (s : SymbolTable) (id : MethodId) : Bool :=
  (s.method id).origin?.isSome && (s.method id).kind != .invoke

namespace Model

variable (m : Model)

def scope (c : Cursor) : Scope := Scope.at_ m.table m.document c

def decl? (c : Cursor) : Option Decl := m.table.decl? ⟨m.document, Pointer.of c⟩

/-- The method or constructor that a node declares. -/
def declaredMethod? (c : Cursor) : Option MethodId :=
  match m.decl? c with
  | some (.method id) => some id
  | _ => none

def declaredType? (c : Cursor) : Option TypeId :=
  match m.decl? c with
  | some (.type id) => some id
  | _ => none

/-- The method or constructor around a node. -/
def containingMethod? (c : Cursor) : Option MethodId :=
  (c.ancestors.filter fun a =>
    a.kind == .methodDeclaration || a.kind == .constructorDeclaration).findSome? m.declaredMethod?

/-- The type that a node writes, where it stands. -/
def resolveType (c : Cursor) : Ty := (m.scope c).resolveType c

/-- The shortest spelling of a type that means it at a node. -/
def spelling (ty : Ty) (c : Cursor) : String := (m.scope c).spelling ty

/-- The node that a parameter belongs to, and the place among its parameters. -/
def parameterPlace? (param : Cursor) : Option (Cursor × Nat) := do
  let parent ← param.parent?
  match parent.kind with
  | .parameterList =>
    let ordinal ← parent.listedParameters.findIdx? fun p => p.index == param.index
    return (← parent.parent?, ordinal)
  | .simpleLambdaExpression => return (parent, 0)
  | _ => none

/-- The parameter of a method at a place, as an owner with a type. -/
def methodParameter? (method : MethodId) (ordinal : Nat) : Option (ParameterOwner × Ty) :=
  ((m.table.method method).params[ordinal]?).map fun p => (.method method, p.ty)

/-- What a parameter of the node `place` belongs to, and its type. -/
def parameterOwner? (param place : Cursor) (ordinal : Nat) : Option (ParameterOwner × Ty) :=
  match place.kind with
  | .methodDeclaration | .constructorDeclaration => do
    m.methodParameter? (← m.declaredMethod? place) ordinal
  | .delegateDeclaration => do
    m.methodParameter? (← m.table.invoke? (← m.declaredType? place)) ordinal
  | .simpleLambdaExpression | .parenthesizedLambdaExpression =>
    some (.lambda (Pointer.of place), (param.type?.map m.resolveType).getD (.error ""))
  | _ => none

/-- The parameter that a node declares. -/
def declaredParameter? (param : Cursor) : Option ParameterSymbol := do
  let name ← param.name?
  let (place, ordinal) ← parameterPlace? param
  let (owner, ty) ← m.parameterOwner? param place ordinal
  return ⟨owner, ordinal, name, ty, Pointer.of param⟩

end Model

end CSharpKit.Semantics
