import CSharpKit.Refactor.DelegateShape
import CSharpKit.Refactor.Forwarding
import CSharpKit.Text.JsonValue

/-! # Create custom delegate

A parameter of type `Action<…>` or `Func<…>` gets a delegate of its own, which
is declared before the method. Parameters of callers that are passed on to it
get the same type. -/

namespace CSharpKit.Refactor

open Syntax Text Workspace Semantics

/-! ## Writing the declaration -/

/-- A type as it is written at a node. -/
def typeSyntax (m : Model) (ty : Ty) (at_ : Cursor) : Except RefactorError Node :=
  let text := m.spelling ty at_
  (parseType text).mapError fun _ => .synthesis text

/-- The declaration of a delegate with types as they are written at a node. -/
def delegateDeclaration (m : Model) (shape : DelegateShape) (name : String) (at_ : Cursor) :
    Except RefactorError Node := do
  let returnType ←
    match shape.returnTy? with
    | some ty => typeSyntax m ty at_
    | none => .ok Build.voidType
  let parameters ← shape.parameters.mapM fun p => do
    return (Build.parameter (← typeSyntax m p.ty at_) p.name).tree
  return Build.delegateDeclaration returnType name parameters

/-- What stands between a new member and the one at a position: a line break with
the same indentation, or a space if the member does not start its line. -/
def memberSeparator (text : String) (pos : Nat) : String :=
  let before := (charsBefore pos text.toList).reverse
  let indent := before.takeWhile (· != '\n')
  match before.drop indent.length with
  | _ :: rest =>
    if indent.all fun c => c == ' ' || c == '\t' then
      let lineBreak := if rest.head? == some '\r' then "\r\n" else "\n"
      lineBreak ++ String.ofList indent.reverse
    else " "
  | [] => " "

/-! ## Offers -/

/-- A refactoring that can be applied to one parameter, with the text of the
document it was found in. -/
structure DelegateOffer where
  document : DocumentId
  parameter : Pointer
  delegateName : String
  shape : DelegateShape
  text : String
  deriving Inhabited

def DelegateOffer.title : String := "Create Custom Delegate"

/-- What an editor shows of an offer. -/
def DelegateOffer.summary (offer : DelegateOffer) : JsonValue :=
  .object [("title", .string title), ("delegateName", .string offer.delegateName),
    ("parameterNames", .ofStrings (offer.shape.parameters.map (·.name))),
    ("returnsValue", .boolean offer.shape.returnTy?.isSome)]

/-- The outermost node with the span of the one that covers a selection. -/
def nodeAtSpan? (root : Cursor) (span : Span) : Option Cursor := do
  let covering ← root.cover? span
  let node ← if covering.isNode then some covering else covering.parent?
  (node.ancestors.takeWhile fun a => a.span == node.span).getLast?

/-- The method that a parameter belongs to. -/
def methodOf? (param : Cursor) : Option Cursor := do
  let list ← param.parent?.filter (·.kind == .parameterList)
  list.parent?.filter (·.kind == .methodDeclaration)

/-- The shape of a parameter, with its symbol. -/
def shapeOf? (m : Model) (param : Cursor) : Option (ParameterSymbol × DelegateShape) := do
  let written ← param.type?
  let symbol ← m.declaredParameter? param
  return (symbol, ← DelegateShape.ofType? m.table symbol.ty written)

/-- The refactoring that can be applied at a selection, if there is one. -/
def offerAt (project : Project) (document : DocumentId) (span : Span) (cancelled : Bool) :
    Except Cancelled (Option DelegateOffer) := do
  checkpoint cancelled
  return do
    let doc ← project.document? document
    let param ← (nodeAtSpan? doc.root span).filter (·.kind == .parameter)
    let _ ← methodOf? param
    let (symbol, shape) ← shapeOf? ⟨SymbolTable.ofProject project, document⟩ param
    return ⟨document, symbol.node, delegateName symbol.name, shape, doc.text⟩

/-! ## Applying an offer -/

/-- The places that an offer changes: the parameter, its written type, the method
and the type declaration around it. -/
structure OfferTarget where
  symbol : ParameterSymbol
  shape : DelegateShape
  written : Cursor
  method : Cursor
  declaration : Cursor
  owner : TypeId

/-- Looks the target of an offer up in a tree. -/
def OfferTarget.find? (m : Model) (root : Cursor) (parameter : Pointer) : Option OfferTarget := do
  let found ← (parameter.resolve root).toOption.join
  let param ← some found |>.filter (·.kind == .parameter)
  let method ← methodOf? param
  let declaration ← method.parent?.filter (·.kind.isTypeDeclaration)
  let owner ← m.declaredType? declaration
  let written ← param.type?
  let (symbol, shape) ← shapeOf? m param
  return ⟨symbol, shape, written, method, declaration, owner⟩

/-- The edits where a delegate is declared and used. -/
def declarationEdits (m : Model) (doc : Document) (target : OfferTarget) (name : String) :
    Except RefactorError (List Edit) := do
  let declaration ← delegateDeclaration m target.shape name target.method
  let separator := memberSeparator doc.text target.method.start
  return [
    ⟨doc.id, Tag.of target.declaration,
      NodeChange.insert target.method.index [declaration, .token .whitespace separator]⟩,
    ⟨doc.id, Tag.of target.written, NodeChange.replaceWith (Build.identifierName name)⟩]

/-- The edit of a parameter that is passed on. In another document the delegate is
written with the type it is declared in. -/
def forwarderEdit (s : SymbolTable) (project : Project) (document : DocumentId) (owner : TypeId)
    (name : String) (site : Origin) : Except RefactorError Edit := do
  match ((Declare.nodeAt? project site).filter (·.kind == .parameter)).bind Cursor.type? with
  | none => .error (.unexpectedCallShape site.document)
  | some written =>
    if site.document = document then
      return ⟨site.document, Tag.of written, NodeChange.replaceWith (Build.identifierName name)⟩
    let container := Model.spelling ⟨s, site.document⟩ (.plain owner) written
    let text := s!"{container}.{name}"
    let new ← (parseType text).mapError fun _ => .synthesis text
    return ⟨site.document, Tag.of written, NodeChange.replaceWith new⟩

/-- The edits that an offer stands for. -/
def offerEdits (project : Project) (offer : DelegateOffer) (cancelled : Bool) :
    Except RefactorError (List Edit) :=
  let s := SymbolTable.ofProject project
  let m : Model := ⟨s, offer.document⟩
  match project.document? offer.document with
  | none => .error (.parameterNotFound offer.document)
  | some doc =>
    if doc.text ≠ offer.text then .error (.staleOffer offer.document)
    else
      match OfferTarget.find? m doc.root offer.parameter with
      | none => .error (.parameterNotFound offer.document)
      | some target => do
        let own ← declarationEdits m doc target offer.delegateName
        let sites ← findForwarders s project offer.document target.symbol cancelled
        let others ← sites.mapM
          (forwarderEdit s project offer.document target.owner offer.delegateName)
        return own ++ others

/-- Applies an offer to a project. -/
def applyOffer (project : Project) (offer : DelegateOffer) (cancelled : Bool) :
    Except RefactorError Project := do
  orCancelled (checkpoint cancelled)
  applyEdits project (← offerEdits project offer cancelled) cancelled

/-! ## Offering and accepting -/

/-- Where one cycle of offering and accepting stands. -/
inductive RefactorPhase where
  | idle
  | offered (offer : DelegateOffer)
  | done
  | aborted (error : RefactorError)
  deriving Inhabited

namespace RefactorPhase

/-- Looks for an offer. What was there before is forgotten. -/
def offer (project : Project) (document : DocumentId) (span : Span) (cancelled : Bool) :
    RefactorPhase × Except RefactorError (Option DelegateOffer) :=
  match offerAt project document span cancelled with
  | .error _ => (.idle, .error .cancelled)
  | .ok none => (.idle, .ok none)
  | .ok (some found) => (.offered found, .ok (some found))

/-- Applies the offer that is pending. -/
def accept (phase : RefactorPhase) (project : Project) (cancelled : Bool) :
    RefactorPhase × Except RefactorError Project :=
  match phase with
  | .offered offer =>
    match applyOffer project offer cancelled with
    | .ok next => (.done, .ok next)
    | .error e => (.aborted e, .error e)
  | phase => (phase, .error .notOffered)

end RefactorPhase

end CSharpKit.Refactor
