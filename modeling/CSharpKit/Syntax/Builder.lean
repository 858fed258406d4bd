import CSharpKit.Syntax.Tree

/-! # Building trees from the left

A builder holds the trees that are finished and the nodes that are still open.
An open node knows how many trees were finished before its first child, so it
may also be opened behind its first children: then it takes over those from a
mark on. The mark has to lie in the node that is open, and only an open node
can be closed. -/

namespace CSharpKit.Syntax

/-- The finished trees, the newest first, and the open nodes, the innermost
first, each with the number of trees before its first child. -/
structure Builder where
  done : Forest
  opened : List (Kind × Nat)
  deriving Inhabited

namespace Builder

def empty : Builder := ⟨[], []⟩

/-- The place of the next tree. -/
def mark (b : Builder) : Nat := b.done.length

def add (b : Builder) (t : Tree) : Builder := { b with done := t :: b.done }

/-- Opens a node behind all that is finished. -/
def startNode (b : Builder) (kind : Kind) : Builder :=
  { b with opened := (kind, b.mark) :: b.opened }

/-- Whether a mark lies in the open node. -/
def admits (b : Builder) (mark : Nat) : Bool :=
  mark ≤ b.mark && b.opened.head?.all fun (_, first) => first ≤ mark

/-- Opens a node whose first child is the tree at a mark; `none` if the mark does
not lie in the open node. -/
def startNodeAt? (b : Builder) (mark : Nat) (kind : Kind) : Option Builder :=
  if b.admits mark then some { b with opened := (kind, mark) :: b.opened } else none

/-- Closes the innermost node; `none` if none is open, or its children are gone. -/
def finishNode? (b : Builder) : Option Builder :=
  match b.opened with
  | [] => none
  | (kind, first) :: outer =>
    if first ≤ b.mark then
      let count := b.mark - first
      some ⟨.node kind (b.done.take count).reverse :: b.done.drop count, outer⟩
    else none

/-- The tree that was built; `none` if a node is still open, or there is not
exactly one node. -/
def finish? (b : Builder) : Option Node :=
  match b with
  | ⟨[t], []⟩ => t.node?
  | _ => none

end Builder

end CSharpKit.Syntax
