import CSharpKit.Semantics.ExpressionTypes
import CSharpKit.Text.Search

/-! # Questions about a document

The rules for names and types ask about other expressions: parts of the one at
hand, or what stands before it. No chain of questions comes back to where it
was, so it is never longer than twice the number of places in the tree, and
that number closes the recursion. -/

namespace CSharpKit.Semantics

open Syntax Workspace

namespace Model

variable (m : Model)

/-- The answers that chains of at most `fuel` questions give. -/
def queriesWithin : Nat → Queries
  | 0 => ⟨fun _ => none, fun _ => none⟩
  | fuel + 1 =>
    ⟨fun c => m.typeOfWith (queriesWithin fuel) c, fun c => m.symbolOfWith (queriesWithin fuel) c⟩

/-- The length of the longest chain of questions in the tree around a node. -/
def chainLength (c : Cursor) : Nat := 2 * (Cursor.root c.top).preorder.length + 2

/-- The answers for the tree around a node. -/
def queries (c : Cursor) : Queries := m.queriesWithin (chainLength c)

/-- The type of an expression. -/
def typeOf? (c : Cursor) : Option Ty := (m.queries c).typeOf c

/-- What an expression refers to. -/
def symbolOf? (c : Cursor) : Option Symbol := (m.queries c).symbolOf c

/-- The method that a call means. -/
def invokedMethod? (call : Cursor) : Option MethodId := m.invokedMethodWith? (m.queries call) call

/-- The type that the method of a call is called on. -/
def receiverOf? (call : Cursor) : Option Ty :=
  match call.expression?.bind (m.queries call).symbolOf with
  | some (.methods _ receiver? _) => receiver?
  | _ => none

/-- The type arguments of a call of a method. -/
def typeArguments (call : Cursor) (method : MethodId) (receiver? : Option Ty) : List Ty :=
  m.typeArgumentsWith (m.queries call) call method receiver?

/-- The value that an extension method is called on. -/
def reducedReceiver? (call : Cursor) : Option Cursor := do
  let callee := (← call.expression?).unparenthesized
  if callee.kind == .memberAccessExpression then callee.expression? else none

/-- Lays the arguments of a call against the parameters of a method. -/
def slots? (call : Cursor) (method : MethodId) (bound : Nat) : Option (List Slot) :=
  let params := (m.table.method method).params
  let names := call.arguments.map Cursor.argumentName?
  match Slot.assign? params names false bound with
  | some slots => some slots
  | none => Slot.assign? params names true bound

/-- The expression that a call gives for a parameter. An extension method gets the
value it is called on for its first one. Elements of an array parameter are not
counted, nor are arguments that declare a variable. -/
def argumentFor? (call : Cursor) (method : MethodId) (ordinal : Nat) : Option Cursor := do
  let isReduced := (thisArgumentWith? (m.queries call) call).isSome
  let receiver? ← if isReduced then (reducedReceiver? call).map some else some none
  match receiver?.filter fun _ => ordinal == 0 with
  | some receiver => return receiver
  | none =>
    let slots ← m.slots? call method (if receiver?.isSome then 1 else 0)
    let (argument, _) ← (call.arguments.zip slots).find? fun (_, slot) =>
      slot.parameter == ordinal && !slot.expanded
    argument.expression?

end Model

/-- A call in the sources. -/
abbrev CallSite := Origin

/-- The calls in a document that mean a method. Documents and calls that do not
write its name are not looked at closely. -/
def callersIn (s : SymbolTable) (method : MethodId) (doc : Document) : List CallSite :=
  let name := (s.method method).name
  let model : Model := ⟨s, doc.id⟩
  if Text.occursIn name.toList doc.text.toList then
    (doc.root.nodes.filter fun c =>
      c.kind == .invocationExpression && Model.calleeName? c == some name &&
        model.invokedMethod? c == some method).map fun c => ⟨doc.id, Pointer.of c⟩
  else []

/-- The calls in a project that mean a method, in the order of the sources. -/
def findCallers (s : SymbolTable) (project : Project) (method : MethodId) (cancelled : Bool) :
    Except Cancelled (List CallSite) := do
  let found ← project.documents.mapM fun doc => do
    checkpoint cancelled
    return callersIn s method doc
  return found.flatten

end CSharpKit.Semantics
