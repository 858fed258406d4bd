import CSharpKit.Syntax.Tree

/-! # Cursors

A cursor is a place in a tree: an element together with the way to it from the
root. It knows where its element starts in the text, so elements of equal shape
at two places of a tree are told apart. Going up reads the cursor, going down
reads the tree. -/

namespace CSharpKit.Syntax

open Text

/-- The root of a tree, or the child `focus` of an element, with its place among
the children and its position in the text. -/
inductive Cursor where
  | root (tree : Tree)
  | child (parent : Cursor) (index : Nat) (start : Nat) (focus : Tree)
  deriving Inhabited

namespace Cursor

/-- The element at a cursor. -/
def focus : Cursor → Tree
  | .root t => t
  | .child _ _ _ t => t

def start : Cursor → Nat
  | .root _ => 0
  | .child _ _ s _ => s

/-- The place of an element among the children of its parent. -/
def index : Cursor → Nat
  | .root _ => 0
  | .child _ i _ _ => i

def parent? : Cursor → Option Cursor
  | .root _ => none
  | .child p _ _ _ => some p

/-- The whole tree a cursor lies in. -/
def top : Cursor → Tree
  | .root t => t
  | .child p _ _ _ => p.top

/-- The cursor and those above it, from the inside out. -/
def ancestors : Cursor → List Cursor
  | .root t => [.root t]
  | .child p i s t => .child p i s t :: p.ancestors

/-- The places among the children on the way from the root. -/
def path : Cursor → List Nat
  | .root _ => []
  | .child p i _ _ => p.path ++ [i]

def kind (c : Cursor) : Kind := c.focus.kind

def isNode (c : Cursor) : Bool := c.focus.isNode

def text (c : Cursor) : String := c.focus.text

def span (c : Cursor) : Span := ⟨c.start, c.focus.width⟩

def stop (c : Cursor) : Nat := c.span.stop

/-- Whether two cursors of one tree are at the same place. -/
def samePlace (c d : Cursor) : Bool := c.path == d.path

/-- Cursors at trees in a row, the first with index `i` at position `pos`. -/
def row (parent : Cursor) : Nat → Nat → Forest → List Cursor
  | _, _, [] => []
  | i, pos, t :: ts => .child parent i pos t :: row parent (i + 1) (pos + t.width) ts

/-- The children of an element, tokens included. -/
def elements (c : Cursor) : List Cursor := row c 0 c.start c.focus.children

/-- The children that are nodes. -/
def children (c : Cursor) : List Cursor := c.elements.filter isNode

/-- The children that are tokens. -/
def tokens (c : Cursor) : List Cursor := c.elements.filter fun e => !e.isNode

mutual

/-- The elements of the tree below a cursor, from the top down. -/
def preorderAt (c : Cursor) : Tree → List Cursor
  | .token _ _ => [c]
  | .node _ ts => c :: preorderRow c 0 c.start ts

def preorderRow (parent : Cursor) (i pos : Nat) : Forest → List Cursor
  | [] => []
  | t :: ts =>
    preorderAt (.child parent i pos t) t ++ preorderRow parent (i + 1) (pos + t.width) ts

end

/-- The element and all below it, from the top down. -/
def preorder (c : Cursor) : List Cursor := preorderAt c c.focus

/-- The node and all nodes below it, from the top down. -/
def nodes (c : Cursor) : List Cursor := c.preorder.filter isNode

/-- The `n`th node of a kind. -/
def nthOfKind? (c : Cursor) (kind : Kind) (n : Nat) : Option Cursor :=
  (c.nodes.filter (·.kind == kind))[n]?

/-- The node at a path, counted from here; `none` if the path leaves the tree or
ends at a token. -/
def at? (c : Cursor) : List Nat → Option Cursor
  | [] => some c
  | i :: path =>
    match c.elements[i]? with
    | some e => if e.isNode then e.at? path else none
    | none => none

/-- The whole tree with the element here replaced. -/
def replaceWith : Cursor → Tree → Tree
  | .root _, new => new
  | .child p i _ _, new => p.replaceWith (p.focus.withChildren (p.focus.children.set i new))

/-- The child to look at for a span: the one that reaches over it; for an empty
span else the last child that ends before it, or the first one. -/
def childAt? (c : Cursor) (span : Span) : Option Cursor :=
  let reaches (e : Cursor) : Bool := e.start < span.stop && span.start < e.stop
  let isBefore (e : Cursor) : Bool := e.stop ≤ span.start
  let found :=
    match c.elements.find? reaches with
    | some e => some e
    | none =>
      match (c.elements.takeWhile isBefore).getLast? with
      | some e => some e
      | none => c.elements.head?
  found.filter (·.span.containsSpan span)

/-- Descends to the smallest element that contains a span; `fuel` bounds the way down. -/
def coverFrom (span : Span) : Nat → Cursor → Cursor
  | 0, c => c
  | fuel + 1, c =>
    match c.childAt? span with
    | some e => coverFrom span fuel e
    | none => c

/-- The smallest element that contains a span; `none` if the span is not inside. -/
def cover? (c : Cursor) (span : Span) : Option Cursor :=
  if c.span.containsSpan span then some (coverFrom span c.focus.depth c) else none

/-- The token at a position, the right one between two; at the end of the text
the last one. A text without tokens has none. -/
def tokenAt? (c : Cursor) (pos : Nat) : Option Cursor :=
  (c.preorder.filter fun e =>
    !e.isNode && !e.span.isEmpty && e.start ≤ pos && pos ≤ e.stop).getLast?

/-- A node as it is shown: its kind and its span. -/
def label (c : Cursor) : String := s!"{c.kind.name}@{c.span.render}"

/-- A token as it is shown: its text and its span. -/
def tokenLabel (c : Cursor) : String := s!"{c.text}@{c.span.render}"

end Cursor

end CSharpKit.Syntax
