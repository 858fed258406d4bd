import CSharpKit.Syntax.Cursor

/-! # Pointers

A pointer names a node by its kind and its span, without the tree. In another
tree it finds a node only where one of that kind has exactly that span. -/

namespace CSharpKit.Syntax

open Text

structure Pointer where
  kind : Kind
  span : Span
  deriving DecidableEq, Hashable, Inhabited

namespace Pointer

/-- The pointer to a node. -/
def of (c : Cursor) : Pointer := ⟨c.kind, c.span⟩

def fits (p : Pointer) (c : Cursor) : Bool := c.kind == p.kind && c.span == p.span

/-- Climbs from a cursor through ancestors of the same span to one of the right kind. -/
def climb (p : Pointer) : Cursor → Option Cursor
  | .root t => if p.fits (.root t) then some (.root t) else none
  | .child parent i s t =>
    if p.fits (.child parent i s t) then some (.child parent i s t)
    else if parent.span == p.span then climb p parent
    else none

/-- The span of a pointer lies outside the tree it is looked up in. -/
inductive Fault where
  | outOfBounds
  deriving DecidableEq

/-- The node a pointer names in a tree. -/
def resolve (p : Pointer) (root : Cursor) : Except Fault (Option Cursor) :=
  match root.cover? p.span with
  | none => .error .outOfBounds
  | some c => .ok ((if c.isNode then some c else c.parent?).bind p.climb)

/-- A pointer as it is shown: its kind and its span. -/
def label (p : Pointer) : String := s!"{p.kind.name}@{p.span.render}"

end Pointer

end CSharpKit.Syntax
