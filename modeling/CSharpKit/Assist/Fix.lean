import CSharpKit.Assist.Diagnostics
import CSharpKit.Refactor.CustomDelegate

/-! # Fixes

`ImmutableArray<int>.Empty.Add(1)` becomes `ImmutableArray.Create(1)`. The type
argument is written only if the element would be converted. -/

namespace CSharpKit.Assist

open Syntax Text Workspace Semantics Refactor

inductive FixError where
  | notFixable (code : String)
  | unknownDocument (id : DocumentId)
  /-- The diagnostic does not point at what its analyzer reports. -/
  | unexpectedShape (expected : String) (span : Span)
  | synthesis (text : String)
  | refactor (error : RefactorError)
  deriving DecidableEq

def FixError.message : FixError → String
  | .notFixable code => s!"no code fix for diagnostic {code}"
  | .unknownDocument id => s!"unknown document {showId id}"
  | .unexpectedShape expected span => s!"expected {expected} at {span.render}"
  | .synthesis text => s!"cannot write type `{text}` as syntax"
  | .refactor error => error.message

structure Fix where
  title : String
  diagnostic : Diagnostic
  deriving DecidableEq, Inhabited

def createTitle : String := "Use ImmutableArray.Create"

/-- The parts of a call `X.Empty.Add(x)`. -/
structure FixTarget where
  call : Cursor
  add : Cursor
  receiver : Cursor
  argument : Cursor

/-- The innermost call that spans exactly a stretch of text. -/
def callAt? (root : Cursor) (span : Span) : Option Cursor := do
  let covering ← root.cover? span
  let node ← if covering.isNode then some covering else covering.parent?
  (node.ancestors.takeWhile fun a => a.span == span).find? fun a =>
    a.kind == .invocationExpression

/-- The value, or the complaint that something else was expected. -/
def orShape {α : Type} (span : Span) (expected : String) : Option α → Except FixError α
  | some a => .ok a
  | none => .error (.unexpectedShape expected span)

/-- The one argument of a call. -/
def singleArgument? (call : Cursor) : Option Cursor :=
  match call.arguments with
  | [argument] => argument.expression?
  | _ => none

/-- Finds the call that a diagnostic reports. -/
def FixTarget.find (root : Cursor) (span : Span) : Except FixError FixTarget := do
  let call ← orShape span "an invocation" (callAt? root span)
  let (add, empty) ← orShape span "`X.Empty.Add(...)`" (emptyAdd? call)
  let receiver ← orShape span "a receiver of `Empty`" empty.expression?
  let argument ← orShape span "a single argument" (singleArgument? call)
  return ⟨call, add, receiver, argument⟩

def documentOf (project : Project) (id : DocumentId) : Except FixError Document :=
  match project.document? id with
  | some doc => .ok doc
  | none => .error (.unknownDocument id)

/-- The fixes for a diagnostic. -/
def fixesFor (project : Project) (d : Diagnostic) : Except FixError (List Fix) :=
  if d.code ≠ badArrayCreation.code then .error (.notFixable d.code)
  else do
    let doc ← documentOf project d.document
    let _ ← FixTarget.find doc.root d.span
    return [⟨createTitle, d⟩]

/-- `A.B.Create` or `A.B.Create<T>`. -/
def createCallee (receiver : List String) (typeArgument : Option Node) : Node :=
  let name :=
    match typeArgument with
    | some ty => Build.genericName "Create" [ty]
    | none => Build.identifierName "Create"
  match receiver with
  | [] => name
  | first :: rest =>
    Build.memberAccess (rest.foldl (fun access part =>
      Build.memberAccess access (Build.identifierName part)) (Build.identifierName first)) name

/-- The receiver of `Create`: short where the array type is written short. -/
def createReceiver (written : Cursor) : List String :=
  if written.kind == .genericName then ["ImmutableArray"]
  else ["System", "Collections", "Immutable", "ImmutableArray"]

/-- The type argument of `Create`, if the element would be converted. -/
def createArgument (m : Model) (target : FixTarget) (element : Ty) :
    Except FixError (Option Node) :=
  if m.typeOf? target.argument = some element then .ok none
  else
    let text := m.spelling element target.call
    match parseType text with
    | .ok tree => .ok (some tree)
    | .error _ => .error (.synthesis text)

/-- The edit that a fix stands for. -/
def fixEdit (m : Model) (target : FixTarget) (span : Span) : Except FixError Edit := do
  let element ← orShape span "an ImmutableArray<T> receiver" (arrayElement? m target.receiver)
  let typeArgument ← createArgument m target element
  return ⟨m.document, Tag.of target.add,
    NodeChange.replaceWith (createCallee (createReceiver target.receiver) typeArgument)⟩

/-- Applies a fix to a project. -/
def applyFix (project : Project) (fix : Fix) (cancelled : Bool) : Except FixError Project := do
  (orCancelled (checkpoint cancelled)).mapError .refactor
  let d := fix.diagnostic
  let doc ← documentOf project d.document
  let target ← FixTarget.find doc.root d.span
  let edit ← fixEdit ⟨SymbolTable.ofProject project, d.document⟩ target d.span
  (applyEdits project [edit] cancelled).mapError .refactor

end CSharpKit.Assist
