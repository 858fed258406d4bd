import CSharpKit.Semantics.Model
import CSharpKit.Settings.Basic

/-! # Diagnostics

One analyzer: an immutable array of one element is better made by `Create` than
by adding to the empty array. -/

namespace CSharpKit.Assist

open Syntax Text Workspace Semantics Settings

inductive Severity where
  | error
  | warning
  deriving DecidableEq, Inhabited

def Severity.name : Severity → String
  | .error => "error"
  | .warning => "warning"

/-- What all diagnostics of an analyzer share. -/
structure Descriptor where
  code : String
  title : String
  message : String
  category : String

def badArrayCreation : Descriptor where
  code := "BadWayOfCreatingImmutableArray"
  title := "Bad way of creating immutable array"
  message := "Bad way of creating immutable array"
  category := "Immutable arrays"

structure Diagnostic where
  severity : Severity
  code : String
  message : String
  document : DocumentId
  span : Span
  deriving DecidableEq, Inhabited

/-- Where a diagnostic starts; `none` if its document is unknown. -/
def Diagnostic.start? (d : Diagnostic) (project : Project) : Option LineCol :=
  (project.document? d.document).map fun doc => doc.lines.lineCol d.span.start

/-- How diagnostics are reported at a level, if at all. -/
def severity? : ReportLevel → Option Severity
  | .error => some .error
  | .warning => some .warning
  | .off => none

/-! ## `X.Empty.Add(x)` -/

/-- A member access that names a given member. -/
def accessNamed? (c : Cursor) (name : String) : Option Cursor := do
  guard (c.kind == .memberAccessExpression)
  let member ← (← c.accessedName?).name?
  guard (member == name)
  return c

/-- The accesses `X.Empty.Add` and `X.Empty` in `X.Empty.Add(…)`. -/
def emptyAdd? (call : Cursor) : Option (Cursor × Cursor) := do
  let add ← accessNamed? (← call.expression?) "Add"
  let empty ← accessNamed? (← add.expression?) "Empty"
  return (add, empty)

/-- The element type, if an expression names the type of immutable arrays. -/
def arrayElement? (m : Model) (c : Cursor) : Option Ty :=
  match m.symbolOf? c with
  | some (.type (.named d [element])) =>
    let isArray := (m.table.type d).name == "ImmutableArray" &&
      m.table.spaceName (m.table.namespaceOf d) == "System.Collections.Immutable"
    if isArray then some element else none
  | _ => none

/-- Whether a call adds one element to the empty immutable array, however the
type is spelled. -/
def isBadCreation (m : Model) (call : Cursor) : Bool :=
  call.arguments.length == 1 &&
    (emptyAdd? call).any fun (_, empty) =>
      (empty.expression?.bind (arrayElement? m)).isSome

/-- The diagnostics of a document. -/
def diagnostics (project : Project) (document : DocumentId) (settings : DiagnosticsSettings)
    (cancelled : Bool) : Except Cancelled (List Diagnostic) := do
  checkpoint cancelled
  match severity? settings.immutableArrayCreation, project.document? document with
  | some severity, some doc =>
    let m : Model := ⟨SymbolTable.ofProject project, document⟩
    let calls := doc.root.nodes.filter fun c =>
      c.kind == .invocationExpression && isBadCreation m c
    return calls.map fun c =>
      ⟨severity, badArrayCreation.code, badArrayCreation.message, document, c.span⟩
  | _, _ => return []

end CSharpKit.Assist
