import CSharpKit.Semantics.Model
import CSharpKit.Settings.Basic

/-! # Quick info

The cases of a closed class hierarchy. An abstract class whose only constructor
is private can be extended by nested classes alone, so these are all its cases. -/

namespace CSharpKit.Assist

open Syntax Text Workspace Semantics Settings

structure QuickInfo where
  message : String
  span : Span
  deriving DecidableEq

/-- A position behind the end of the document. -/
inductive PositionFault where
  | outOfBounds
  deriving DecidableEq

/-- Whether a nested class is a case of the class around it. -/
def isCase (s : SymbolTable) (owner nested : TypeId) : Bool :=
  let info := s.type nested
  info.kind == .classType && !info.isGeneric && s.classBase? nested == some owner

/-- Whether only nested classes can extend a class. -/
def isClosed (s : SymbolTable) (id : TypeId) : Bool :=
  let info := s.type id
  info.kind == .classType && info.isAbstract &&
    match s.methodsOf .constructor id with
    | [c] => (s.method c).access == .privateAccess
    | _ => false

/-- The names of the cases of a closed class in their order; `none` for other
types, and if there are no cases. -/
def sumTypeCases? (s : SymbolTable) (id : TypeId) : Option (List String) :=
  if isClosed s id then
    match (s.typesIn (.type id)).filter (isCase s id) with
    | [] => none
    | cases => some (cases.map fun t => (s.type t).name)
  else none

/-- The name at a position: the outermost node of one span has to be a name. -/
def nameAt? (root : Cursor) (pos : Nat) : Option Cursor := do
  let node ← (← root.tokenAt? pos).parent?
  let top ← (node :: (node.ancestors.drop 1).takeWhile fun a =>
    a.span == node.span && a.kind != .compilationUnit).getLast?
  if top.kind == .identifierName then some top else none

/-- The definition of the type that a name refers to. A name that stands for
something else has none. -/
def referencedType? (m : Model) (name : Cursor) : Option TypeId :=
  match m.symbolOf? name with
  | some (.type ty) => ty.definition?
  | some _ => none
  | none => (m.resolveType name).definition?

/-- The cases of the class that is named at a position. -/
def sumTypeInfo? (project : Project) (doc : Document) (pos : Nat) : Option QuickInfo := do
  let name ← nameAt? doc.root pos
  let s := SymbolTable.ofProject project
  let cases ← sumTypeCases? s (← referencedType? ⟨s, doc.id⟩ name)
  return ⟨"Sum type cases:\n" ++ "\n".intercalate cases, name.span⟩

/-- What is shown for a position. -/
def quickInfo (project : Project) (document : DocumentId) (pos : Nat)
    (settings : QuickInfoSettings) : Except PositionFault (Option QuickInfo) :=
  match project.document? document with
  | none => .ok none
  | some doc =>
    if !settings.sumTypes then .ok none
    else if doc.root.stop < pos then .error .outOfBounds
    else .ok (sumTypeInfo? project doc pos)

end CSharpKit.Assist
