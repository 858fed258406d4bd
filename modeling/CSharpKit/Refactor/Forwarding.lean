import CSharpKit.Refactor.Edit
import CSharpKit.Semantics.Model

/-! # Forwarded parameters

The callers of a method that pass one of their own parameters straight on as an
argument. Such a parameter has to change its type together with the one it is
passed to. -/

namespace CSharpKit.Refactor

open Syntax Workspace Semantics

/-- `out var x` and arguments that recovery left empty have no expression. -/
def hasEmptyArgument (call : Cursor) : Bool := call.arguments.any fun a => a.expression?.isNone

/-- The parameter of the calling method that a call passes on for a parameter of
the called one. -/
def forwardedParameter? (m : Model) (call : Cursor) (method : MethodId) (ordinal : Nat) :
    Except RefactorError (Option ParameterSymbol) :=
  match m.argumentFor? call method ordinal with
  | none =>
    let optional := ((m.table.method method).params[ordinal]?).any fun p =>
      p.hasDefault || p.isParams
    if optional || hasEmptyArgument call then .ok none
    else .error (.missingArgument m.document ordinal)
  | some argument =>
    match m.symbolOf? argument.unparenthesized, m.containingMethod? call with
    | some (.parameter p), some caller =>
      .ok (if p.owner = .method caller then some p else none)
    | _, _ => .ok none

/-- The call at a place in the sources. -/
def callAt (project : Project) (site : CallSite) : Except RefactorError Cursor :=
  match (Declare.nodeAt? project site).filter (·.kind == .invocationExpression) with
  | some call => .ok call
  | none => .error (.unexpectedCallShape site.document)

/-- The parameter that a call of a method passes on, as a place in the sources. -/
def forwarder? (s : SymbolTable) (project : Project) (method : MethodId) (ordinal : Nat)
    (site : CallSite) : Except RefactorError (Option Origin) := do
  let call ← callAt project site
  let found ← forwardedParameter? ⟨s, site.document⟩ call method ordinal
  return found.map fun p => ⟨site.document, p.node⟩

/-- The parameters of callers that are passed on to a parameter, each one once. A
method that calls itself with the parameter does not count. -/
def findForwarders (s : SymbolTable) (project : Project) (document : DocumentId)
    (target : ParameterSymbol) (cancelled : Bool) : Except RefactorError (List Origin) :=
  match target.owner with
  | .lambda _ => .ok []
  | .method method => do
    let callers ← orCancelled (findCallers s project method cancelled)
    let found ← callers.mapM (forwarder? s project method target.ordinal)
    return ((found.filterMap id).filter fun o => o ≠ ⟨document, target.node⟩).eraseDups

end CSharpKit.Refactor
