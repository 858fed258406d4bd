import CSharpKit.Syntax.Parser

/-! # Rules of the grammar

The grammar is recursive through few of its constructs. Those are listed here;
the readers of all others call them through a table of rules, which is closed
at the end by bounding how deep they nest. Types are a grammar of their own and
not among them. -/

namespace CSharpKit.Syntax.Grammar

/-- The constructs through which the grammar is recursive. -/
inductive Construct where
  /-- The contents of a file or, if `inBlock`, of a namespace in braces. -/
  | namespaceBody (inBlock : Bool)
  | member
  | statement
  /-- An expression whose operators bind at least as tight as `power`. -/
  | expression (power : Nat)
  | unary
  | initializer
  deriving DecidableEq

/-- A reader for each recursive construct. -/
abbrev Rules := Construct → Parser Unit

end CSharpKit.Syntax.Grammar
