import CSharpKit.Assist.Fix

/-! # Actions

What can be done at a selection: the refactoring first, then fixes for the
diagnostics that touch it. -/

namespace CSharpKit.Assist

open Text Workspace Semantics Refactor Settings

inductive Action where
  | createDelegate (offer : DelegateOffer)
  | fix (fix : Fix)
  deriving Inhabited

inductive ActionError where
  | refactor (error : RefactorError)
  | fix (error : FixError)
  deriving DecidableEq

namespace Action

def title : Action → String
  | .createDelegate _ => DelegateOffer.title
  | .fix f => f.title

/-- The word by which an editor sorts an action. -/
def kind : Action → String
  | .createDelegate _ => "refactor.rewrite"
  | .fix _ => "quickfix"

/-- Carries out an action on the project it was found in. -/
def apply (action : Action) (project : Project) (cancelled : Bool) :
    Except ActionError Project :=
  match action with
  | .createDelegate offer => (applyOffer project offer cancelled).mapError .refactor
  | .fix f => (applyFix project f cancelled).mapError .fix

end Action

/-- Whether two spans share a position; touching ends do. -/
def touches (a b : Span) : Bool := max a.start b.start ≤ min a.stop b.stop

/-- The actions at a selection. A diagnostic without a fix adds none. -/
def actionsAt (project : Project) (document : DocumentId) (span : Span) (settings : Settings)
    (cancelled : Bool) : Except Cancelled (List Action) := do
  let offer? ←
    if settings.refactor.createCustomDelegate then offerAt project document span cancelled
    else .ok none
  let reported ← diagnostics project document settings.diagnostics cancelled
  let fixes := (reported.filter fun d => touches d.span span).flatMap fun d =>
    (fixesFor project d).toOption.getD []
  return offer?.toList.map .createDelegate ++ fixes.map .fix

end CSharpKit.Assist
