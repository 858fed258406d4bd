import CSharpKit.Semantics.Ty

/-! # Symbol tables

A table numbers the namespaces, types and members of a project. Each entry
names what it belongs to; what belongs to an entry is read off the table, in
the order of declaration. Entries are only added, and an entry belongs to an
earlier one. -/

namespace CSharpKit.Semantics

open Syntax Workspace

/-- What a type is declared in. -/
inductive Container where
  | space (id : NamespaceId)
  | type (id : TypeId)
  deriving DecidableEq, Inhabited

/-- A namespace; only the global one has no parent. -/
structure NamespaceInfo where
  name : String
  parent? : Option NamespaceId
  deriving DecidableEq, Inhabited

structure TypeInfo where
  name : String
  kind : TypeKind
  container : Container
  typeParams : List String := []
  access : Access := .publicAccess
  isAbstract : Bool := false
  isStatic : Bool := false
  /-- The keyword that names this type. -/
  keyword? : Option Kind := none
  bases : List Ty := []
  origin? : Option Origin := none
  deriving DecidableEq, Inhabited

namespace TypeInfo

def arity (t : TypeInfo) : Nat := t.typeParams.length

def isGeneric (t : TypeInfo) : Bool := !t.typeParams.isEmpty

def isReference (t : TypeInfo) : Bool :=
  t.kind == .classType || t.kind == .interfaceType || t.kind == .delegateType

end TypeInfo

structure ParameterInfo where
  name : String
  ty : Ty
  hasDefault : Bool := false
  isParams : Bool := false
  origin? : Option Origin := none
  deriving DecidableEq, Inhabited

inductive MethodKind where
  | ordinary
  | constructor
  /-- The call of a delegate. -/
  | invoke
  deriving DecidableEq, Inhabited

/-- The name a kind of method is shown by. -/
def MethodKind.name : MethodKind → String
  | .ordinary => "Ordinary"
  | .constructor => "Constructor"
  | .invoke => "DelegateInvoke"

structure MethodInfo where
  name : String
  kind : MethodKind
  owner : TypeId
  typeParams : List String := []
  params : List ParameterInfo := []
  returnTy : Ty := .void
  isStatic : Bool := false
  /-- Whether it may be called on a value of its first parameter's type. -/
  isExtension : Bool := false
  access : Access := .publicAccess
  origin? : Option Origin := none
  deriving DecidableEq, Inhabited

/-- A field or a property. -/
structure ValueInfo where
  name : String
  owner : TypeId
  ty : Ty
  isStatic : Bool
  origin? : Option Origin := none
  deriving DecidableEq, Inhabited

/-- What a node of the sources declares. -/
inductive Decl where
  | space (id : NamespaceId)
  | type (id : TypeId)
  | method (id : MethodId)
  | field (id : FieldId)
  | property (id : PropertyId)
  deriving DecidableEq, Inhabited

structure SymbolTable where
  namespaces : Array NamespaceInfo
  types : Array TypeInfo
  methods : Array MethodInfo
  fields : Array ValueInfo
  properties : Array ValueInfo
  /-- Declarations by their place in the sources, the newest first. -/
  decls : List (Origin × Decl)
  deriving Inhabited

namespace SymbolTable

/-- The global namespace alone. -/
def empty : SymbolTable := ⟨#[⟨"", none⟩], #[], #[], #[], #[], []⟩

def global : NamespaceId := ⟨0⟩

/-- The segments of a dotted name; empty ones are left out. -/
def segments (path : String) : List String :=
  ((path.toList.splitOn '.').filter (!·.isEmpty)).map String.ofList

variable (s : SymbolTable)

/-! ## Entries -/

def space (id : NamespaceId) : NamespaceInfo := (s.namespaces[id.num]?).getD default

def type (id : TypeId) : TypeInfo := (s.types[id.num]?).getD default

def method (id : MethodId) : MethodInfo := (s.methods[id.num]?).getD default

def field (id : FieldId) : ValueInfo := (s.fields[id.num]?).getD default

def property (id : PropertyId) : ValueInfo := (s.properties[id.num]?).getD default

/-- What the node at a place declares. -/
def decl? (origin : Origin) : Option Decl := s.decls.lookup origin

/-! ## What belongs to an entry -/

def typeIds : List TypeId := (List.range s.types.size).map TypeId.mk

def methodIds : List MethodId := (List.range s.methods.size).map MethodId.mk

def child? (parent : NamespaceId) (name : String) : Option NamespaceId :=
  (s.namespaces.findIdx? fun n => n.parent? == some parent && n.name == name).map NamespaceId.mk

def typesIn (container : Container) : List TypeId :=
  s.typeIds.filter fun t => (s.type t).container == container

/-- The type of a name and number of type parameters that is declared in a container. -/
def typeIn? (container : Container) (name : String) (arity : Nat) : Option TypeId :=
  s.typeIds.find? fun t =>
    let info := s.type t
    info.container == container && info.name == name && info.arity == arity

def methodsOf (kind : MethodKind) (owner : TypeId) : List MethodId :=
  s.methodIds.filter fun m => (s.method m).owner == owner && (s.method m).kind == kind

/-- The call of a delegate. -/
def invoke? (owner : TypeId) : Option MethodId := (s.methodsOf .invoke owner).getLast?

def fieldsOf (owner : TypeId) : List FieldId :=
  ((List.range s.fields.size).map FieldId.mk).filter fun f => (s.field f).owner == owner

def propertiesOf (owner : TypeId) : List PropertyId :=
  ((List.range s.properties.size).map PropertyId.mk).filter fun p => (s.property p).owner == owner

/-- The type that a keyword names. -/
def keywordType? (keyword : Kind) : Option TypeId :=
  (s.types.findIdx? fun t => t.keyword? == some keyword).map TypeId.mk

def objectType? : Option TypeId := s.keywordType? .objectKw

/-! ## Names -/

/-- The names on the way from the global namespace; `fuel` bounds the way. -/
def spacePathWithin : Nat → NamespaceId → List String
  | 0, _ => []
  | fuel + 1, id =>
    match (s.space id).parent? with
    | none => []
    | some parent => spacePathWithin fuel parent ++ [(s.space id).name]

def spacePath (id : NamespaceId) : List String := s.spacePathWithin s.namespaces.size id

/-- A namespace by its dotted name; the global one has none. -/
def spaceName (id : NamespaceId) : String := ".".intercalate (s.spacePath id)

/-- The types a type is nested in, the innermost first, and the namespace around
them; `fuel` bounds the nesting. -/
def enclosingWithin : Nat → TypeId → List TypeId × NamespaceId
  | 0, _ => ([], global)
  | fuel + 1, id =>
    match (s.type id).container with
    | .space ns => ([], ns)
    | .type outer =>
      let (types, ns) := enclosingWithin fuel outer
      (outer :: types, ns)

def enclosing (id : TypeId) : List TypeId × NamespaceId := s.enclosingWithin s.types.size id

/-- The namespace a type is declared in, also through other types. -/
def namespaceOf (id : TypeId) : NamespaceId := (s.enclosing id).2

/-- The names of what a type is declared in, the outermost first. -/
def qualifiers (id : TypeId) : List String :=
  let (types, ns) := s.enclosing id
  s.spacePath ns ++ (types.reverse.map fun t => (s.type t).name)

/-- The dotted name of a type with all its qualifiers. An empty part adds no dot
before what follows it. -/
def fullName (id : TypeId) : String :=
  (s.qualifiers id ++ [(s.type id).name]).foldl
    (fun front name => if front.isEmpty then name else front ++ "." ++ name) ""

/-- The type at a dotted namespace. -/
def typeByPath? (path name : String) (arity : Nat) : Option TypeId := do
  let ns ← (segments path).foldlM (fun ns segment => s.child? ns segment) global
  s.typeIn? (.space ns) name arity

/-- The namespace at segments counted from the global one. -/
def spaceByPath? (segments : List String) : Option NamespaceId :=
  segments.foldlM (fun ns segment => s.child? ns segment) global

/-! ## Base classes -/

/-- The base class of a type: the first base that is a class, or else `object`.
Interfaces and `object` have none. -/
def classBase? (id : TypeId) : Option TypeId :=
  let info := s.type id
  let declared := (info.bases.filterMap Ty.definition?).find? fun b =>
    (s.type b).kind == .classType
  match declared with
  | some base => some base
  | none =>
    if info.kind == .interfaceType then none
    else s.objectType?.filter (· != id)

/-- Goes on from the last type of a chain to base classes that are not yet in it. -/
def extendChain : Nat → List TypeId → TypeId → List TypeId
  | 0, chain, _ => chain
  | fuel + 1, chain, last =>
    match s.classBase? last with
    | none => chain
    | some base =>
      if chain.contains base then chain else extendChain fuel (chain ++ [base]) base

/-- A type and its base classes. Declarations may form a cycle; no type is listed twice. -/
def baseChain (id : TypeId) : List TypeId := s.extendChain s.types.size [id] id

def isSubclass (id base : TypeId) : Bool := (s.baseChain id).contains base

def directBases (id : TypeId) : List TypeId := (s.type id).bases.filterMap Ty.definition?

/-- The type of a name that is nested in a type or in one of its base classes. -/
def nested? (owner : TypeId) (name : String) (arity : Nat) : Option TypeId :=
  (s.baseChain owner).findSome? fun t => s.typeIn? (.type t) name arity

/-! ## Growth -/

/-- The namespace of a name in another; it is added if there is none. -/
def ensureSpace (parent : NamespaceId) (name : String) : SymbolTable × NamespaceId :=
  match s.child? parent name with
  | some id => (s, id)
  | none => ({ s with namespaces := s.namespaces.push ⟨name, some parent⟩ }, ⟨s.namespaces.size⟩)

/-- The namespace at a dotted name in another; missing ones are added. -/
def ensurePath (parent : NamespaceId) (path : String) : SymbolTable × NamespaceId :=
  (segments path).foldl (fun (s, ns) segment => s.ensureSpace ns segment) (s, parent)

def addType (info : TypeInfo) : SymbolTable × TypeId :=
  ({ s with types := s.types.push info }, ⟨s.types.size⟩)

def addMethod (info : MethodInfo) : SymbolTable × MethodId :=
  ({ s with methods := s.methods.push info }, ⟨s.methods.size⟩)

def addField (info : ValueInfo) : SymbolTable × FieldId :=
  ({ s with fields := s.fields.push info }, ⟨s.fields.size⟩)

def addProperty (info : ValueInfo) : SymbolTable × PropertyId :=
  ({ s with properties := s.properties.push info }, ⟨s.properties.size⟩)

def record (origin : Origin) (decl : Decl) : SymbolTable :=
  { s with decls := (origin, decl) :: s.decls }

def setBases (id : TypeId) (bases : List Ty) : SymbolTable :=
  { s with types := s.types.modify id.num ({ · with bases }) }

def setSignature (id : MethodId) (params : List ParameterInfo) (returnTy : Ty) : SymbolTable :=
  { s with methods := s.methods.modify id.num ({ · with params, returnTy }) }

def setFieldTy (id : FieldId) (ty : Ty) : SymbolTable :=
  { s with fields := s.fields.modify id.num ({ · with ty }) }

def setPropertyTy (id : PropertyId) (ty : Ty) : SymbolTable :=
  { s with properties := s.properties.modify id.num ({ · with ty }) }

end SymbolTable

end CSharpKit.Semantics
