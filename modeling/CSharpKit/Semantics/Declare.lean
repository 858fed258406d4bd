import CSharpKit.Semantics.Framework
import CSharpKit.Semantics.Scope
import CSharpKit.Workspace.Project

/-! # Declarations of a project

A project is read in three passes. The first enters what each document
declares, the second resolves base types, the third resolves the types of
members. Base types are resolved in the order of declaration, and each one is
visible to those after it: a nested type can be found through a base class. -/

namespace CSharpKit.Semantics

open Syntax Workspace TableM

/-- The work was stopped before it had a result. -/
inductive Cancelled where
  | cancelled
  deriving DecidableEq

def Cancelled.message : Cancelled → String
  | .cancelled => "operation was cancelled"

/-- A place where work stops if it has been cancelled. -/
def checkpoint (cancelled : Bool) : Except Cancelled Unit :=
  if cancelled then .error .cancelled else .ok ()

namespace Declare

/-- Enters what the node at a place declares. -/
def record (origin : Origin) (decl : Decl) : TableM Unit := modify fun s => s.record origin decl

/-- The names of the type parameters a declaration writes. -/
def typeParamNames (c : Cursor) : List String :=
  ((c.typeParameterList?.map Cursor.typeParameters).getD []).filterMap Cursor.name?

/-- The accessibility a declaration writes. `public` counts before all others,
and two of the other words can stand together. -/
def writtenAccess (c : Cursor) (default : Access) : Access :=
  if c.hasModifier .publicKw then .publicAccess
  else if c.hasModifier .protectedKw then
    if c.hasModifier .internalKw then .protectedInternal
    else if c.hasModifier .privateKw then .privateProtected
    else .protectedAccess
  else if c.hasModifier .internalKw then .internalAccess
  else if c.hasModifier .privateKw then .privateAccess
  else default

/-- The accessibility of a type that writes none. -/
def defaultTypeAccess : Container → Access
  | .space _ => .internalAccess
  | .type _ => .privateAccess

/-- The accessibility of a member that writes none. -/
def defaultMemberAccess : TypeKind → Access
  | .interfaceType => .publicAccess
  | _ => .privateAccess

def typeKind : Kind → TypeKind
  | .structDeclaration => .structType
  | .interfaceDeclaration => .interfaceType
  | .enumDeclaration => .enumType
  | .delegateDeclaration => .delegateType
  | _ => .classType

/-- Enters the type that a node declares, without its members. -/
def enterType (origin : Origin) (container : Container) (c : Cursor) : TableM TypeId := do
  let kind := typeKind c.kind
  let hasBody := kind == .classType || kind == .structType || kind == .interfaceType
  let isStatic := hasBody && c.hasModifier .staticKw
  let id ← addType
    { name := c.name?.getD "", kind, container, typeParams := typeParamNames c
      access := writtenAccess c (defaultTypeAccess container)
      isAbstract := hasBody && (c.hasModifier .abstractKw || isStatic) || kind == .interfaceType
      isStatic, origin? := some origin }
  record origin (.type id)
  return id

/-- Enters the values of an enumeration as static fields of its type. -/
def enterEnumMembers (document : DocumentId) (owner : TypeId) (c : Cursor) : TableM Unit :=
  for member in c.enumMembers do
    if let some name := member.name? then
      let origin : Origin := ⟨document, Pointer.of member⟩
      let id ← addField
        { name, owner, ty := .plain owner, isStatic := true, origin? := some origin }
      record origin (.field id)

/-- Enters the call of a delegate. -/
def enterInvoke (origin : Origin) (owner : TypeId) : TableM Unit := do
  let _ ← addMethod { name := "Invoke", kind := .invoke, owner, origin? := some origin }

def enterMethod (origin : Origin) (owner : TypeId) (c : Cursor) : TableM Unit := do
  let info := (← get).type owner
  let isStatic := c.hasModifier .staticKw
  let access := writtenAccess c (defaultMemberAccess info.kind)
  let id ←
    if c.kind == .constructorDeclaration then
      addMethod
        { name := info.name, kind := .constructor, owner, isStatic, access, origin? := some origin }
    else
      addMethod
        { name := c.name?.getD "", kind := .ordinary, owner, typeParams := typeParamNames c
          isStatic, access, origin? := some origin
          isExtension := isStatic && c.parameters.head?.any fun p => p.hasModifier .thisKw }
  record origin (.method id)

/-- Enters the fields that one declaration lists. -/
def enterFields (document : DocumentId) (owner : TypeId) (c : Cursor) : TableM Unit :=
  for declarator in (c.variableDeclaration?.map Cursor.declarators).getD [] do
    if let some name := declarator.name? then
      let origin : Origin := ⟨document, Pointer.of declarator⟩
      let id ← addField
        { name, owner, ty := .error "", origin? := some origin
          isStatic := c.hasModifier .staticKw || c.hasModifier .constKw }
      record origin (.field id)

def enterProperty (origin : Origin) (owner : TypeId) (c : Cursor) : TableM Unit := do
  if let some name := c.name? then
    let id ← addProperty
      { name, owner, ty := .error "", isStatic := c.hasModifier .staticKw, origin? := some origin }
    record origin (.property id)

/-- Enters a member and what it contains; `fuel` bounds the nesting. Members that
cannot stand in their container are left out. -/
def enterMember (document : DocumentId) : Nat → Container → Cursor → TableM Unit
  | 0, _, _ => pure ()
  | fuel + 1, container, c => do
    let origin : Origin := ⟨document, Pointer.of c⟩
    match c.kind, container with
    | .namespaceDeclaration, .space parent | .fileScopedNamespaceDeclaration, .space parent =>
      let ns ← ensurePath parent ((c.type?.map fun t => t.focus.plainText).getD "")
      record origin (.space ns)
      for member in c.members do enterMember document fuel (.space ns) member
    | .classDeclaration, _ | .structDeclaration, _ | .interfaceDeclaration, _ =>
      let id ← enterType origin container c
      for member in c.members do enterMember document fuel (.type id) member
    | .enumDeclaration, _ =>
      let id ← enterType origin container c
      enterEnumMembers document id c
    | .delegateDeclaration, _ =>
      let id ← enterType origin container c
      enterInvoke origin id
    | .methodDeclaration, .type owner | .constructorDeclaration, .type owner =>
      enterMethod origin owner c
    | .fieldDeclaration, .type owner => enterFields document owner c
    | .propertyDeclaration, .type owner => enterProperty origin owner c
    | _, _ => pure ()

/-- Enters the declarations of a document. -/
def enterDocument (doc : Document) : TableM Unit :=
  for member in doc.root.members do
    enterMember doc.id doc.parsed.tree.depth (.space SymbolTable.global) member

/-- The node that a declaration stands at. -/
def nodeAt? (project : Project) (origin : Origin) : Option Cursor := do
  let doc ← project.document? origin.document
  (origin.pointer.resolve doc.root).toOption.join

/-- Resolves the base types of a declaration. -/
def resolveBases (project : Project) (s : SymbolTable) (origin : Origin) (decl : Decl) :
    SymbolTable :=
  match decl, nodeAt? project origin with
  | .type id, some c =>
    if c.kind.isTypeDeclaration then
      let scope := Scope.at_ s origin.document c
      s.setBases id (((c.baseList?.map Cursor.types).getD []).map scope.resolveType)
    else s
  | _, _ => s

/-- The parameters that a declaration writes. -/
def parameterInfos (scope : Scope) (document : DocumentId) (c : Cursor) : List ParameterInfo :=
  c.parameters.map fun p =>
    { name := p.name?.getD "", ty := (p.type?.map scope.resolveType).getD (.error "")
      hasDefault := p.equalsValue?.isSome, isParams := p.hasModifier .paramsKw
      origin? := some ⟨document, Pointer.of p⟩ }

/-- Resolves the types that a declaration writes. -/
def resolveSignature (project : Project) (s : SymbolTable) (origin : Origin) (decl : Decl) :
    SymbolTable :=
  match nodeAt? project origin with
  | none => s
  | some c =>
    let scope := Scope.at_ s origin.document c
    let params := parameterInfos scope origin.document c
    let returnTy := (c.type?.map scope.resolveType).getD .void
    match decl, c.kind with
    | .type id, .delegateDeclaration =>
      match s.invoke? id with
      | some invoke => s.setSignature invoke params returnTy
      | none => s
    | .method id, .methodDeclaration => s.setSignature id params returnTy
    | .method id, .constructorDeclaration => s.setSignature id params .void
    | .field id, _ =>
      match (c.parent?.filter (·.kind == .variableDeclaration)).bind Cursor.type? with
      | some ty => s.setFieldTy id (scope.resolveType ty)
      | none => s
    | .property id, _ =>
      match c.type? with
      | some ty => s.setPropertyTy id (scope.resolveType ty)
      | none => s
    | _, _ => s

/-- Visits all declarations in their order. -/
def eachDecl (visit : SymbolTable → Origin → Decl → SymbolTable) (s : SymbolTable) : SymbolTable :=
  s.decls.reverse.foldl (fun s (origin, decl) => visit s origin decl) s

end Declare

namespace SymbolTable

/-- The symbols of a project and of the framework. -/
def ofProject (project : Project) : SymbolTable :=
  let entered := ((project.documents.forM Declare.enterDocument).run Framework.table).2
  Declare.eachDecl (Declare.resolveSignature project)
    (Declare.eachDecl (Declare.resolveBases project) entered)

/-- The symbols of a project, unless the work is cancelled. -/
def build (project : Project) (cancelled : Bool) : Except Cancelled SymbolTable := do
  checkpoint cancelled
  return ofProject project

end SymbolTable

end CSharpKit.Semantics
