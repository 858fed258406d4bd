import CSharpKit.Syntax.Token

/-! # Trees

A tree keeps every token of the source, trivia included, so its leaves in a row
are the source text. Kinds and texts are all it holds: the same tree can stand
at any place of a file. -/

namespace CSharpKit.Syntax

/-- A node with its children, or a token. -/
inductive Tree where
  | node (kind : Kind) (children : List Tree)
  | token (kind : Kind) (text : String)
  deriving Inhabited

/-- Trees in a row. -/
abbrev Forest := List Tree

/-- A tree that is no token. -/
structure Node where
  kind : Kind
  children : Forest
  deriving Inhabited

/-- A node as a tree. -/
@[coe] def Node.tree (n : Node) : Tree := .node n.kind n.children

instance : Coe Node Tree := ⟨Node.tree⟩

namespace Tree

def kind : Tree → Kind
  | .node k _ => k
  | .token k _ => k

def isNode : Tree → Bool
  | .node _ _ => true
  | .token _ _ => false

def isToken (t : Tree) : Bool := !t.isNode

def node? : Tree → Option Node
  | .node k cs => some ⟨k, cs⟩
  | .token _ _ => none

/-- The children of a node; a token has none. -/
def children : Tree → Forest
  | .node _ cs => cs
  | .token _ _ => []

/-- The same node with other children; a token stays as it is. -/
def withChildren : Tree → Forest → Tree
  | .node k _, cs => .node k cs
  | .token k s, _ => .token k s

mutual

/-- The tokens of a tree from left to right. -/
def leaves : Tree → List (Kind × String)
  | .node _ cs => forestLeaves cs
  | .token k s => [(k, s)]

def forestLeaves : Forest → List (Kind × String)
  | [] => []
  | t :: ts => leaves t ++ forestLeaves ts

end

mutual

/-- The number of bytes a tree spans. -/
def width : Tree → Nat
  | .node _ cs => forestWidth cs
  | .token _ s => s.utf8ByteSize

def forestWidth : Forest → Nat
  | [] => 0
  | t :: ts => width t + forestWidth ts

end

mutual

/-- The number of steps on the longest way down. -/
def depth : Tree → Nat
  | .node _ cs => forestDepth cs
  | .token _ _ => 0

/-- One more than the greatest depth of trees in a row, and zero for none. -/
def forestDepth : Forest → Nat
  | [] => 0
  | t :: ts => max (depth t + 1) (forestDepth ts)

end

/-- The source text of a tree. -/
def text (t : Tree) : String := String.join (t.leaves.map (·.2))

/-- The source text without trivia. -/
def plainText (t : Tree) : String :=
  String.join ((t.leaves.filter fun leaf => !leaf.1.isTrivia).map (·.2))

mutual

/-- The elements of a tree from the top down, each with its depth, its kind and,
for a token, its text. -/
def outlineAt (depth : Nat) : Tree → List (Nat × Kind × Option String)
  | .node k cs => (depth, k, none) :: forestOutlineAt (depth + 1) cs
  | .token k s => [(depth, k, some s)]

def forestOutlineAt (depth : Nat) : Forest → List (Nat × Kind × Option String)
  | [] => []
  | t :: ts => outlineAt depth t ++ forestOutlineAt depth ts

end

def outline (t : Tree) : List (Nat × Kind × Option String) := outlineAt 0 t

@[simp] theorem forestLeaves_append (xs ys : Forest) :
    forestLeaves (xs ++ ys) = forestLeaves xs ++ forestLeaves ys := by
  induction xs with
  | nil => rfl
  | cons t ts ih => simp [forestLeaves, ih]

@[simp] theorem forestWidth_append (xs ys : Forest) :
    forestWidth (xs ++ ys) = forestWidth xs + forestWidth ys := by
  induction xs with
  | nil => simp [forestWidth]
  | cons t ts ih => simp [forestWidth, ih, Nat.add_assoc]

end Tree

end CSharpKit.Syntax
