import CSharpKit.Semantics.Symbols
import CSharpKit.Syntax.View

/-! # Scopes

What a name means at a place in the sources. A scope lists what is open there,
from the inside out: the method, the types around it, and the namespaces with
what their `using` directives bring in. Directives are resolved when a level is
opened, in the scope of the levels outside it, so a directive never sees itself
or its neighbours. -/

namespace CSharpKit.Semantics

open Syntax Workspace

/-- What a name stands for. -/
inductive NameMeaning where
  | space (id : NamespaceId)
  | type (ty : Ty)
  deriving DecidableEq, Inhabited

/-- What the `using` directives of a level bring in: names for other things,
which may be unknown, and namespaces whose types are open. -/
structure Imports where
  aliases : List (String × Option NameMeaning) := []
  spaces : List NamespaceId := []
  deriving Inhabited

/-- One level of a scope. -/
inductive Level where
  | method (id : MethodId)
  | type (id : TypeId)
  | space (id : NamespaceId) (imports : Imports)
  deriving Inhabited

/-- The levels open at a place, the innermost first. -/
structure Scope where
  table : SymbolTable
  levels : List Level
  deriving Inhabited

/-- What a name means as a type parameter. -/
def typeParam? (owner : ParamOwner) (names : List String) (name : String) : Option NameMeaning :=
  (names.findIdx? (· == name)).map fun i => .type (.param owner i name)

namespace Imports

/-- What a name means by the directives of a level. A name that is introduced
here hides the open namespaces even if its meaning is unknown. -/
def find? (imports : Imports) (s : SymbolTable) (name : String) (arity : Nat) :
    Option NameMeaning :=
  match if arity = 0 then imports.aliases.lookup name else none with
  | some meaning => meaning
  | none =>
    (imports.spaces.findSome? fun ns => s.typeIn? (.space ns) name arity).map fun t =>
      .type (.plain t)

end Imports

namespace Level

/-- What a name with `arity` type arguments means at a level. -/
def find? (s : SymbolTable) (name : String) (arity : Nat) : Level → Option NameMeaning
  | .method m => if arity = 0 then typeParam? (.method m) (s.method m).typeParams name else none
  | .type t =>
    match if arity = 0 then typeParam? (.type t) (s.type t).typeParams name else none with
    | some meaning => some meaning
    | none => (s.nested? t name arity).map fun n => .type (.plain n)
  | .space ns imports =>
    match s.typeIn? (.space ns) name arity with
    | some t => some (.type (.plain t))
    | none =>
      match if arity = 0 then s.child? ns name else none with
      | some child => some (.space child)
      | none => imports.find? s name arity

end Level

namespace Scope

/-- What a name with `arity` type arguments means: the innermost meaning counts. -/
def lookup (scope : Scope) (name : String) (arity : Nat) : Option NameMeaning :=
  scope.levels.findSome? (Level.find? scope.table name arity)

/-- The type that a keyword names. -/
def predefined (scope : Scope) (c : Cursor) : Ty :=
  match c.leadToken? with
  | none => .error ""
  | some token =>
    if token.kind == .voidKw then .void
    else
      match scope.table.keywordType? token.kind with
      | some id => .plain id
      | none => .error token.text

/-- A meaning with written type arguments, which `resolve` resolves. -/
def applied (resolve : Cursor → Ty) (arguments : Option Cursor) : NameMeaning → NameMeaning
  | .type (.named d as) =>
    match arguments with
    | some list => .type (.named d (list.types.map resolve))
    | none => .type (.named d as)
  | meaning => meaning

/-- What `left.name` means. -/
def memberWith (scope : Scope) (resolve : Cursor → Ty) (left : NameMeaning) (name : Cursor) :
    Option NameMeaning := do
  let text ← name.name?
  let arguments := name.typeArgumentList?
  let arity := name.typeArguments.length
  let found ←
    match left with
    | .space ns =>
      match scope.table.typeIn? (.space ns) text arity with
      | some t => some (.type (.plain t))
      | none => if arity = 0 then (scope.table.child? ns text).map .space else none
    | .type ty =>
      (ty.definition?.bind fun d => scope.table.nested? d text arity).map fun nested =>
        .type (.plain nested)
  return applied resolve arguments found

mutual

/-- The type that a node writes; `fuel` bounds its depth. -/
def typeWithin (scope : Scope) : Nat → Cursor → Ty
  | 0, c => .error c.focus.plainText
  | fuel + 1, c =>
    let element := (c.type?.map (typeWithin scope fuel)).getD (.error c.focus.plainText)
    match c.kind with
    | .predefinedType => scope.predefined c
    | .arrayType =>
      (c.childrenOfKind .arrayRankSpecifier).foldl (fun element rank =>
        .array element ((rank.elements.filter fun e => e.kind == .comma).length + 1)) element
    | .nullableType => .nullable element
    | _ =>
      match nameWithin scope fuel c with
      | some (.type ty) => ty
      | _ => .error c.focus.plainText

/-- What a written name means; `fuel` bounds its depth. -/
def nameWithin (scope : Scope) : Nat → Cursor → Option NameMeaning
  | 0, _ => none
  | fuel + 1, c =>
    match c.kind with
    | .identifierName => do scope.lookup (← c.name?) 0
    | .genericName => do
      let found ← scope.lookup (← c.name?) c.arity
      return applied (typeWithin scope fuel) c.typeArgumentList? found
    | .qualifiedName => do
      let left ← nameWithin scope fuel (← c.type?)
      scope.memberWith (typeWithin scope fuel) left (← c.lastSegment?)
    | .aliasQualifiedName => do
      let spelled ← (← c.child? .identifierName).name?
      let left ←
        if spelled == "global" then some (.space SymbolTable.global) else scope.lookup spelled 0
      scope.memberWith (typeWithin scope fuel) left (← c.aliasedName?)
    | .predefinedType => some (.type (scope.predefined c))
    | .arrayType | .nullableType => some (.type (typeWithin scope fuel c))
    | _ => none

end

/-- Enough for every node: each step down takes at most two. -/
def fuelFor (c : Cursor) : Nat := 2 * c.focus.depth + 3

/-- The type that a node writes. -/
def resolveType (scope : Scope) (c : Cursor) : Ty := scope.typeWithin (fuelFor c) c

/-- What a written name means. -/
def resolveName (scope : Scope) (c : Cursor) : Option NameMeaning := scope.nameWithin (fuelFor c) c

/-- What `left.name` means. -/
def member (scope : Scope) (left : NameMeaning) (name : Cursor) : Option NameMeaning :=
  scope.memberWith scope.resolveType left name

/-- The types around a place, the innermost first. -/
def enclosingTypes (scope : Scope) : List TypeId :=
  scope.levels.filterMap fun
    | .type t => some t
    | _ => none

/-- The method a place lies in, if that is the innermost declaration around it. -/
def enclosingMethod? (scope : Scope) : Option MethodId :=
  match scope.levels.head? with
  | some (.method m) => some m
  | _ => none

/-- The namespaces that are searched for extension methods, the innermost first. -/
def extensionSpaces (scope : Scope) : List NamespaceId :=
  (scope.levels.flatMap fun
    | .space ns imports => ns :: imports.spaces
    | _ => []).foldl (fun found ns => if found.contains ns then found else found ++ [ns]) []

/-- What the directives of a file or namespace bring in, seen from outside it. -/
def importsOf (outer : Scope) (owner : Cursor) : Imports where
  aliases := owner.usings.filterMap fun u =>
    u.usingAlias?.map fun name => (name.text, u.type?.bind outer.resolveName)
  spaces := (owner.usings.filter fun u => u.usingAlias?.isNone && !u.isStaticUsing).filterMap
    fun u =>
      match u.type?.bind outer.resolveName with
      | some (.space ns) => some ns
      | _ => none

/-- The namespaces around one, up to `stop`; `fuel` bounds their number. A
namespace with a dotted name opens those around it too. -/
def parentLevels (s : SymbolTable) (stop : Option NamespaceId) : Nat → NamespaceId → List Level
  | 0, _ => []
  | fuel + 1, ns =>
    match (s.space ns).parent? with
    | none => []
    | some parent =>
      if some parent = stop then [] else .space parent {} :: parentLevels s stop fuel parent

/-- Opens namespaces, given from the inside out, each with the node that holds
its directives. -/
def openSpaces (s : SymbolTable) : List (NamespaceId × Option Cursor) → List Level
  | [] => []
  | (ns, owner) :: outer =>
    let rest := parentLevels s (outer.head?.map (·.1)) s.namespaces.size ns ++ openSpaces s outer
    let imports := (owner.map (importsOf ⟨s, .space ns {} :: rest⟩)).getD {}
    .space ns imports :: rest

/-- The level of the method or type that a node declares. -/
def declaredLevel? (s : SymbolTable) (document : DocumentId) (c : Cursor) : Option Level :=
  let decl := s.decl? ⟨document, Pointer.of c⟩
  match c.kind with
  | .methodDeclaration | .constructorDeclaration =>
    match decl with
    | some (.method m) => some (.method m)
    | _ => none
  | .classDeclaration | .structDeclaration | .interfaceDeclaration | .enumDeclaration
  | .delegateDeclaration =>
    match decl with
    | some (.type t) => some (.type t)
    | _ => none
  | _ => none

/-- The namespace that a node declares, with the node. -/
def declaredSpace? (s : SymbolTable) (document : DocumentId) (c : Cursor) :
    Option (NamespaceId × Option Cursor) :=
  if c.kind.isNamespaceDeclaration then
    match s.decl? ⟨document, Pointer.of c⟩ with
    | some (.space ns) => some (ns, some c)
    | _ => none
  else none

/-- The scope at a node. -/
def at_ (s : SymbolTable) (document : DocumentId) (c : Cursor) : Scope :=
  let around := c.ancestors
  let unit := (around.filter fun a => a.kind == .compilationUnit).getLast?
  let spaces := around.filterMap (declaredSpace? s document) ++ [(SymbolTable.global, unit)]
  ⟨s, around.filterMap (declaredLevel? s document) ++ openSpaces s spaces⟩

end Scope

end CSharpKit.Semantics
