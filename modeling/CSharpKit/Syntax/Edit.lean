import CSharpKit.Syntax.View

/-! # Changing trees

A change to a node makes a new tree and leaves the old one as it is. -/

namespace CSharpKit.Syntax.Tree

/-- The node with the child at a place replaced; a place past the end changes nothing. -/
def replaceChild (t : Tree) (index : Nat) (new : Tree) : Tree :=
  t.withChildren (t.children.set index new)

/-- Trees inserted before the one at a place; `none` past the end. -/
def insertAt? (ts : Forest) (index : Nat) (new : Forest) : Option Forest :=
  if index ≤ ts.length then some (ts.take index ++ new ++ ts.drop index) else none

/-- The node with trees inserted before the child at a place; `none` past the end. -/
def insertChildren? (t : Tree) (index : Nat) (new : Forest) : Option Tree :=
  (insertAt? t.children index new).map t.withChildren

/-- The node with its first child node of a kind replaced. -/
def replaceChildNode? (t : Tree) (p : Kind → Bool) (new : Tree) : Option Tree :=
  (t.children.findIdx? fun d => d.isNode && p d.kind).map fun i => t.replaceChild i new

end CSharpKit.Syntax.Tree
