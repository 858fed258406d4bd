import CSharpKit.Syntax.Edit
import CSharpKit.Semantics.Declare

/-! # Edits

An edit names its target by the place it has in the unedited tree and computes
the replacement from what stands there when its turn comes. The edits of a
document are made from the deepest target up, so a change sees what is below
its target already changed; those of one target are made in the order they
were recorded. All documents are changed together, or none is. -/

namespace CSharpKit.Refactor

open Syntax Text Workspace Semantics

/-- A node by the way to it from the root, with its kind and its span in the
tree it was taken from. -/
structure Tag where
  path : List Nat
  kind : Kind
  span : Span
  deriving DecidableEq, Inhabited

namespace Tag

def of (c : Cursor) : Tag := ⟨c.path, c.kind, c.span⟩

def depth (tag : Tag) : Nat := tag.path.length

/-- The node at the path of a tag, if it has the given kind. -/
def findKind? (tag : Tag) (root : Cursor) (kind : Kind) : Option Cursor :=
  (root.at? tag.path).filter (·.kind == kind)

/-- The node of a tag in the tree it was taken from. -/
def find? (tag : Tag) (root : Cursor) : Option Cursor :=
  (tag.findKind? root tag.kind).filter (·.span == tag.span)

end Tag

inductive EditError where
  | tagNotFound (document : DocumentId) (kind : Kind) (span : Span)
  | invalidChange (kind : Kind) (reason : String)
  | project (error : ProjectError)
  deriving DecidableEq

def EditError.message : EditError → String
  | .tagNotFound document kind span =>
    s!"edit target {kind.name} at {span.render} not found in document {showId document}"
  | .invalidChange kind reason => s!"cannot rewrite {kind.name}: {reason}"
  | .project error => error.message

/-- The replacement of a node, computed from its current form. -/
abbrev NodeChange := Tree → Except EditError Node

namespace NodeChange

/-- Puts another node in the place of the node. -/
def replaceWith (new : Node) : NodeChange := fun _ => .ok new

/-- Inserts trees before the child at a place, tokens counted. -/
def insert (index : Nat) (new : Forest) : NodeChange := fun node =>
  match Tree.insertAt? node.children index new with
  | some children => .ok ⟨node.kind, children⟩
  | none =>
    let slots := node.children.length
    .error (.invalidChange node.kind s!"child slot {index} out of bounds ({slots} slots)")

end NodeChange

/-- A change of one node of a document. -/
structure Edit where
  document : DocumentId
  target : Tag
  change : NodeChange

/-- A tree under change, and the kinds of the nodes that were replaced, by their
paths, the newest first. -/
structure EditState where
  tree : Tree
  replaced : List (List Nat × Kind)

namespace Edit

def notFound (edit : Edit) : EditError :=
  .tagNotFound edit.document edit.target.kind edit.target.span

/-- Makes one edit. The target has the kind it was captured with, or that of the
last replacement made there. -/
def step (state : EditState) (edit : Edit) : Except EditError EditState := do
  let path := edit.target.path
  let kind := (state.replaced.lookup path).getD edit.target.kind
  match edit.target.findKind? (.root state.tree) kind with
  | none => .error edit.notFound
  | some c =>
    let new ← edit.change c.focus
    return ⟨c.replaceWith new, (path, new.kind) :: state.replaced⟩

/-- The edits from the deepest target up; those of equal depth keep their order. -/
def deepestFirst (edits : List Edit) : List Edit :=
  edits.mergeSort fun a b => b.target.depth ≤ a.target.depth

/-- Makes the edits of one document. Every target has to be in the unedited tree. -/
def applyToTree (edits : List Edit) (root : Tree) : Except EditError Tree := do
  match edits.find? fun edit => (edit.target.find? (.root root)).isNone with
  | some edit => .error edit.notFound
  | none => return (← (deepestFirst edits).foldlM step ⟨root, []⟩).tree

/-- The documents that edits change, in the order of their numbers. -/
def documents (edits : List Edit) : List DocumentId :=
  (edits.map (·.document)).mergeSort.eraseDups

/-- The edits of one document in the order they were recorded. -/
def ofDocument (edits : List Edit) (id : DocumentId) : List Edit :=
  edits.filter (·.document == id)

end Edit

inductive RefactorError where
  | cancelled
  | notOffered
  | staleOffer (document : DocumentId)
  | parameterNotFound (document : DocumentId)
  | missingArgument (document : DocumentId) (ordinal : Nat)
  | unexpectedCallShape (document : DocumentId)
  /-- A type whose spelling cannot be read as a type. -/
  | synthesis (text : String)
  | edit (error : EditError)
  deriving DecidableEq

def RefactorError.message : RefactorError → String
  | .cancelled => "refactoring was cancelled"
  | .notOffered => "no refactoring has been offered"
  | .staleOffer document => s!"document {showId document} changed since the refactoring was offered"
  | .parameterNotFound document =>
    s!"the offered parameter no longer resolves in document {showId document}"
  | .missingArgument document ordinal =>
    s!"call in document {showId document} has no argument for parameter #{ordinal}"
  | .unexpectedCallShape document =>
    s!"caller in document {showId document} is not an invocation"
  | .synthesis text => s!"type `{text}` cannot be written as syntax"
  | .edit error => error.message

/-- The result of a step that may be cancelled, as part of a refactoring. -/
def orCancelled {α : Type} : Except Cancelled α → Except RefactorError α
  | .ok a => .ok a
  | .error .cancelled => .error .cancelled

/-- The tree of a document after its edits. -/
def editedTree (project : Project) (edits : List Edit) (cancelled : Bool) (id : DocumentId) :
    Except RefactorError (DocumentId × Tree) := do
  orCancelled (checkpoint cancelled)
  match project.document? id with
  | none => .error (.edit (.project (.unknownDocument id)))
  | some doc =>
    match Edit.applyToTree (Edit.ofDocument edits id) doc.parsed.tree with
    | .ok tree => .ok (id, tree)
    | .error e => .error (.edit e)

/-- Makes edits in all documents of a project. -/
def applyEdits (project : Project) (edits : List Edit) (cancelled : Bool) :
    Except RefactorError Project := do
  let roots ← (Edit.documents edits).mapM (editedTree project edits cancelled)
  orCancelled (checkpoint cancelled)
  match project.withRoots roots with
  | .ok next => .ok next
  | .error e => .error (.edit (.project e))

end CSharpKit.Refactor
