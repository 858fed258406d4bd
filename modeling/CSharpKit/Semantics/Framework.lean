import CSharpKit.Semantics.Symbols

/-! # Types of the framework

The types that every project can use without declaring them: the types named by
keywords, the delegates of `System`, and a few collections. -/

namespace CSharpKit.Semantics

open Syntax

/-- Steps that extend a symbol table. -/
abbrev TableM := StateM SymbolTable

namespace TableM

def addType (info : TypeInfo) : TableM TypeId := modifyGet fun s => (s.addType info).swap

def addMethod (info : MethodInfo) : TableM MethodId := modifyGet fun s => (s.addMethod info).swap

def addField (info : ValueInfo) : TableM FieldId := modifyGet fun s => (s.addField info).swap

def addProperty (info : ValueInfo) : TableM PropertyId :=
  modifyGet fun s => (s.addProperty info).swap

def ensurePath (parent : NamespaceId) (path : String) : TableM NamespaceId :=
  modifyGet fun s => (s.ensurePath parent path).swap

end TableM

namespace Framework

open TableM

/-- The types named by keywords. -/
def predefined : List (String × Kind × TypeKind) := [
  ("Object", .objectKw, .classType), ("String", .stringKw, .classType),
  ("Boolean", .boolKw, .structType), ("Byte", .byteKw, .structType),
  ("SByte", .sbyteKw, .structType), ("Char", .charKw, .structType),
  ("Decimal", .decimalKw, .structType), ("Double", .doubleKw, .structType),
  ("Single", .floatKw, .structType), ("Int32", .intKw, .structType),
  ("UInt32", .uintKw, .structType), ("Int64", .longKw, .structType),
  ("UInt64", .ulongKw, .structType), ("Int16", .shortKw, .structType),
  ("UInt16", .ushortKw, .structType)]

/-- The type that a keyword names. -/
def keywordTy (s : SymbolTable) (keyword : Kind) (text : String) : Ty :=
  match s.keywordType? keyword with
  | some id => .plain id
  | none => .error text

/-- One name alone, or a name with numbers from one on. -/
def numbered (single several : String) : Nat → List String
  | 0 => []
  | 1 => [single]
  | n => (List.range n).map fun i => several ++ toString (i + 1)

/-- The type parameter of a type. -/
def param (owner : TypeId) (index : Nat) (name : String) : Ty := .param (.type owner) index name

/-- A delegate whose parameters take its type parameters in their order. -/
def delegate (ns : NamespaceId) (name : String) (typeParams parameters : List String)
    (returnTy : TypeId → Ty) : TableM Unit := do
  let id ← addType { name, kind := .delegateType, container := .space ns, typeParams }
  let params := (parameters.zip typeParams).zipIdx.map fun ((parameter, typeParam), i) =>
    { name := parameter, ty := param id i typeParam }
  let _ ← addMethod
    { name := "Invoke", kind := .invoke, owner := id, params, returnTy := returnTy id }

/-- A delegate of one type parameter with the given parameters. -/
def genericDelegate (ns : NamespaceId) (name typeParam : String)
    (params : Ty → List ParameterInfo) (returnTy : Ty) : TableM Unit := do
  let id ← addType
    { name, kind := .delegateType, container := .space ns, typeParams := [typeParam] }
  let _ ← addMethod
    { name := "Invoke", kind := .invoke, owner := id, params := params (param id 0 typeParam),
      returnTy }

def method (owner : TypeId) (name : String) (isStatic : Bool) (params : List ParameterInfo)
    (returnTy : Ty) : TableM Unit := do
  let _ ← addMethod { name, kind := .ordinary, owner, params, returnTy, isStatic }

def constructor (owner : TypeId) : TableM Unit := do
  let name := ((← get).type owner).name
  let _ ← addMethod { name, kind := .constructor, owner }

def genericType (ns : NamespaceId) (name : String) (kind : TypeKind) (typeParams : List String) :
    TableM TypeId :=
  addType { name, kind, container := .space ns, typeParams }

/-- A class that only groups static methods. -/
def staticClass (ns : NamespaceId) (name : String) : TableM TypeId :=
  addType { name, kind := .classType, container := .space ns, isAbstract := true, isStatic := true }

/-- `static ImmutableArray<T> name<T>(…)`. -/
def arrayFactory (owner array : TypeId) (name : String) (params : Ty → List ParameterInfo) :
    TableM Unit := do
  let id : MethodId := ⟨(← get).methods.size⟩
  let element : Ty := .param (.method id) 0 "T"
  let _ ← addMethod
    { name, kind := .ordinary, owner, typeParams := ["T"], params := params element,
      returnTy := .named array [element], isStatic := true }

/-- `Console` with the ways to write a line. -/
def console (system : NamespaceId) (string object int : Ty) : TableM Unit := do
  let id ← staticClass system "Console"
  method id "WriteLine" true [] .void
  for ty in [string, object, int] do
    method id "WriteLine" true [{ name := "value", ty }] .void

/-- The delegates of `System`. -/
def delegates (system : NamespaceId) (object int bool : Ty) : TableM Unit := do
  for inputs in List.range 17 do
    delegate system "Action" (numbered "T" "T" inputs) (numbered "obj" "arg" inputs) fun _ => .void
  for inputs in List.range 17 do
    delegate system "Func" (numbered "T" "T" inputs ++ ["TResult"]) (numbered "arg" "arg" inputs)
      fun id => param id inputs "TResult"
  delegate system "Predicate" ["T"] ["obj"] fun _ => bool
  genericDelegate system "Comparison" "T"
    (fun t => [{ name := "x", ty := t }, { name := "y", ty := t }]) int
  genericDelegate system "EventHandler" "TEventArgs"
    (fun t => [{ name := "sender", ty := object }, { name := "e", ty := t }]) .void

/-- The collections of `System.Collections.Generic`. -/
def collections (int : Ty) : TableM Unit := do
  let generic ← ensurePath SymbolTable.global "System.Collections.Generic"
  let enumerable ← genericType generic "IEnumerable" .interfaceType ["T"]
  let list ← genericType generic "List" .classType ["T"]
  let item := param list 0 "T"
  modify fun s => s.setBases list [.named enumerable [item]]
  constructor list
  method list "Add" false [{ name := "item", ty := item }] .void
  let _ ← addProperty { name := "Count", owner := list, ty := int, isStatic := false }
  let dictionary ← genericType generic "Dictionary" .classType ["TKey", "TValue"]
  constructor dictionary
  method dictionary "Add" false
    [{ name := "key", ty := param dictionary 0 "TKey" },
      { name := "value", ty := param dictionary 1 "TValue" }] .void

/-- `System.Collections.Immutable`. -/
def immutableArrays (int : Ty) : TableM Unit := do
  let immutable ← ensurePath SymbolTable.global "System.Collections.Immutable"
  let array ← genericType immutable "ImmutableArray" .structType ["T"]
  let item := param array 0 "T"
  let whole : Ty := .named array [item]
  let _ ← addField { name := "Empty", owner := array, ty := whole, isStatic := true }
  method array "Add" false [{ name := "item", ty := item }] whole
  let _ ← addProperty { name := "Length", owner := array, ty := int, isStatic := false }
  let factory ← staticClass immutable "ImmutableArray"
  arrayFactory factory array "Create" fun _ => []
  arrayFactory factory array "Create" fun t => [{ name := "item", ty := t }]
  arrayFactory factory array "Create" fun t =>
    [{ name := "items", ty := .array t 1, isParams := true }]

def declare : TableM Unit := do
  let system ← ensurePath SymbolTable.global "System"
  for (name, keyword, kind) in predefined do
    let _ ← addType { name, kind, container := .space system, keyword? := some keyword }
  let s ← get
  let object := keywordTy s .objectKw "object"
  let string := keywordTy s .stringKw "string"
  let int := keywordTy s .intKw "int"
  let bool := keywordTy s .boolKw "bool"
  console system string object int
  let _ ← addType { name := "EventArgs", kind := .classType, container := .space system }
  let _ ← addType { name := "Exception", kind := .classType, container := .space system }
  delegates system object int bool
  collections int
  immutableArrays int

/-- The symbols of the framework. -/
def table : SymbolTable := (declare.run .empty).2

end Framework

end CSharpKit.Semantics
