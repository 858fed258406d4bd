import CSharpKit.Semantics.Symbol

/-! # Names in expressions

What a name in an expression refers to: a local variable or parameter, a member
of a type around it, or a type or namespace. The rules ask for the types of
other expressions; `Queries` stands for the answers, so each rule is a plain
function of them. -/

namespace CSharpKit.Semantics

open Syntax

/-- Answers about other expressions. -/
structure Queries where
  typeOf : Cursor → Option Ty
  symbolOf : Cursor → Option Symbol

namespace Model

variable (m : Model)

/-! ## Members -/

/-- The methods of a name. If type arguments are written, their number counts. -/
def methodsNamed (owner : TypeId) (name : String) (arity : Nat) : List MethodId :=
  (m.table.methodsOf .ordinary owner).filter fun id =>
    let info := m.table.method id
    info.name == name && (arity == 0 || info.typeParams.length == arity)

/-- The field of a name, or else the property. -/
def valueNamed? (owner : TypeId) (name : String) (receiver : Ty) : Option Symbol :=
  match (m.table.fieldsOf owner).find? fun f => (m.table.field f).name == name with
  | some f => some (.field f (some receiver))
  | none =>
    ((m.table.propertiesOf owner).find? fun p => (m.table.property p).name == name).map fun p =>
      .property p (some receiver)

/-- A member that one definition adds to a type. -/
def ownMember? (at_ : Cursor) (ty : Ty) (name : String) (arguments : List Cursor)
    (owner : TypeId) : Option Symbol :=
  match if arguments.isEmpty then m.valueNamed? owner name ty else none with
  | some value => some value
  | none =>
    match m.methodsNamed owner name arguments.length with
    | [] =>
      (m.table.nested? owner name arguments.length).map fun nested =>
        .type (.named nested (arguments.map (m.scope at_).resolveType))
    | candidates => some (.methods candidates (some ty) none)

/-- The definition that holds the members of a type. -/
def memberHolder? : Ty → Option TypeId
  | .named d _ => some d
  | .array .. | .param .. => m.table.objectType?
  | _ => none

/-- A member of a type or of its base classes. -/
def memberOfType? (at_ : Cursor) (ty : Ty) (name : String) (arguments : List Cursor) :
    Option Symbol := do
  let holder ← m.memberHolder? ty
  (m.table.baseChain holder).findSome? (m.ownMember? at_ ty name arguments)

/-- The extension methods of a name in the innermost namespace that has any. -/
def extensionMethods? (at_ : Cursor) (ty : Ty) (name : String) (arity : Nat) : Option Symbol :=
  (m.scope at_).extensionSpaces.findSome? fun ns =>
    match ((m.table.typesIn (.space ns)).flatMap fun t => m.methodsNamed t name arity).filter
      fun id => (m.table.method id).isExtension with
    | [] => none
    | candidates => some (.methods candidates none (some ty))

/-- A member of a value, or else extension methods for it. -/
def memberOfValue? (at_ : Cursor) (ty : Ty) (name : String) (arguments : List Cursor) :
    Option Symbol :=
  match m.memberOfType? at_ ty name arguments with
  | some found => some found
  | none => m.extensionMethods? at_ ty name arguments.length

/-- What `receiver.name` refers to. -/
def memberAccess? (q : Queries) (receiver name : Cursor) : Option Symbol := do
  let text ← name.name?
  match q.symbolOf receiver with
  | some (.space ns) => ((m.scope receiver).member (.space ns) name).map NameMeaning.symbol
  | some (.type ty) => m.memberOfType? receiver ty text name.typeArguments
  | some (.methods ..) => none
  | some value => m.memberOfValue? receiver (← m.table.typeOfSymbol? value) text name.typeArguments
  | none => m.memberOfValue? receiver (← q.typeOf receiver) text name.typeArguments

/-! ## Local variables and parameters -/

/-- A written type, or what its value tells if it is `var`. -/
def variableTy (written : Cursor) (inferred : Option Ty) : Ty :=
  if written.focus.plainText == "var" then inferred.getD (.error "var") else m.resolveType written

/-- The variable of a name in a declaration that ends before a position. -/
def declaredVariable? (q : Queries) (name : String) (position : Nat) (declaration : Cursor) :
    Option Symbol := do
  let declarator ← declaration.declarators.find? fun d =>
    d.name? == some name && d.stop ≤ position
  let written ← declaration.type?
  let value? := declarator.equalsValue?.bind Cursor.expression?
  return .localVariable name (Pointer.of declarator)
    (m.variableTy written (value?.bind q.typeOf))

/-- The type of the elements a `foreach` runs over. -/
def elementTy? : Ty → Option Ty
  | .array element _ => some element
  | .named _ [argument] => some argument
  | _ => none

/-- The type of the variable of a `foreach`. -/
def foreachTy (q : Queries) (loop : Cursor) : Ty :=
  let inferred := (loop.collection?.bind q.typeOf).bind elementTy?
  match loop.type? with
  | some written => m.variableTy written inferred
  | none => inferred.getD (.error "var")

/-- What a name refers to by the construct `around`, which contains the name in
its child `inner`. A construct that ends the search answers even if it has no
such name. -/
def localAt? (q : Queries) (name : String) (position : Nat) (around inner : Cursor) :
    Option (Option Symbol) :=
  match around.kind with
  | .simpleLambdaExpression | .parenthesizedLambdaExpression =>
    (around.lambdaParameters.find? fun p => p.name? == some name).map fun p =>
      (m.declaredParameter? p).map .parameter
  | .block =>
    ((around.children.takeWhile fun s => s.start < position).findSome? fun s =>
      if s.kind == .localDeclarationStatement then
        s.variableDeclaration?.bind (m.declaredVariable? q name position)
      else none).map some
  | .forStatement =>
    (around.variableDeclaration?.bind (m.declaredVariable? q name position)).map some
  | .forEachStatement =>
    if !(around.collection?.any fun c => c.index == inner.index) && around.name? == some name then
      some (some (.localVariable name (Pointer.of around) (m.foreachTy q around)))
    else none
  | .methodDeclaration | .constructorDeclaration =>
    some ((around.parameters.find? fun p => p.name? == some name).bind fun p =>
      (m.declaredParameter? p).map .parameter)
  | _ => none

/-- The local variable or parameter that a name refers to, from the inside out. -/
def localAbove? (q : Queries) (name : String) (position : Nat) : Cursor → Option Symbol
  | .root _ => none
  | .child parent i s t =>
    match m.localAt? q name position parent (.child parent i s t) with
    | some answer => answer
    | none => localAbove? q name position parent

/-! ## Simple names -/

/-- What a type or namespace name refers to here. -/
def globalName? (scope : Scope) (name : String) (arguments? : Option Cursor) : Option Symbol :=
  let arguments := (arguments?.map Cursor.types).getD []
  (scope.lookup name arguments.length).map fun meaning =>
    (Scope.applied scope.resolveType arguments? meaning).symbol

/-- What a name that stands alone refers to: local variables and parameters go
before members of the types around, these before types and namespaces. -/
def simpleName? (q : Queries) (c : Cursor) : Option Symbol := do
  let name ← c.name?
  let arguments := c.typeArguments
  let local? := if arguments.isEmpty then m.localAbove? q name c.start c else none
  let scope := m.scope c
  match local? with
  | some found => some found
  | none =>
    match scope.enclosingTypes.findSome? fun t =>
      m.memberOfType? c (m.table.instanceType t) name arguments with
    | some found => some found
    | none => globalName? scope name c.typeArgumentList?

/-- What an expression refers to, given answers for those it depends on. -/
def symbolOfWith (q : Queries) (c : Cursor) : Option Symbol :=
  let c := c.unparenthesized
  match c.kind with
  | .identifierName | .genericName => m.simpleName? q c
  | .predefinedType | .aliasQualifiedName =>
    ((m.scope c).resolveName c).map NameMeaning.symbol
  | .memberAccessExpression => do m.memberAccess? q (← c.expression?) (← c.accessedName?)
  | _ => none

end Model

end CSharpKit.Semantics
