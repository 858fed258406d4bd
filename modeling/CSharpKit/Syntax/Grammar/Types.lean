import CSharpKit.Syntax.Grammar.Rules

/-! # Grammar of names and types

Names and types are recursive through their type arguments only, which `inner`
reads. -/

namespace CSharpKit.Syntax.Grammar

open CSharpKit.Syntax.Parser

/-- A node of this kind around the next token. -/
def leaf (kind : Kind) : Parser Unit := node kind bump

section

variable (inner : Parser Unit)

/-- `<int, string>`; slots may be empty, as in `Func<,>`. -/
def typeArgumentList : Parser Unit :=
  node .typeArgumentList do
    require .less "expected `<`"
    loop do
      if ← isAtAny [.greater, .eof] then
        return false
      else if ← eat .comma then
        return true
      else
        inner
        eat .comma
    require .greater "expected `>`"

/-- One segment of a name. -/
def simpleName (generic : Bool) : Parser Unit := do
  if generic && (← isAt .identifier) && (← isAtNth 1 .less) then
    node .genericName do
      bump
      typeArgumentList inner
  else
    node .identifierName (require .identifier "expected name")

/-- The first segment of a name, behind `alias::` if that is written. -/
def nameHead (start : Nat) (generic : Bool) : Parser Unit := do
  if (← isAt .identifier) && (← isAtNth 1 .colonColon) then
    nodeFrom start .aliasQualifiedName do
      leaf .identifierName
      bump
      simpleName inner generic
  else
    simpleName inner generic

/-- Whether a dot and another segment of a name follow. -/
def atSegment (ts : List Token) : Bool :=
  Lookahead.kind ts == .dot && Lookahead.kindAt? 1 ts == some .identifier

/-- A name of one or more segments. -/
def name (generic : Bool) : Parser Unit := do
  let start ← mark
  nameHead inner start generic
  whileAhead atSegment do
    nodeFrom start .qualifiedName do
      bump
      simpleName inner generic

end

/-- `[]`, `[,]`, `[,,]`. -/
def rankSpecifier : Parser Unit :=
  node .arrayRankSpecifier do
    bump
    loop (eat .comma)
    require .rBracket "expected `]`"

def rankSpecifiers : Parser Unit :=
  whileAhead (Lookahead.kind · == .lBracket) rankSpecifier

/-- A suffix that makes the type since a mark nullable or an array; `false` if
there is none. -/
def typeSuffix (start : Nat) : Parser Bool := do
  match ← peek with
  | .question =>
    nodeFrom start .nullableType bump
    return true
  | .lBracket =>
    if (← isAtNth 1 .rBracket) || (← isAtNth 1 .comma) then
      nodeFrom start .arrayType rankSpecifiers
      return true
    else
      return false
  | _ => return false

/-- A written type, with a reader for the types inside it. -/
def typeWith (inner : Parser Unit) : Parser Unit := do
  let start ← mark
  let k ← peek
  if k.isPredefinedType || k == .voidKw then
    leaf .predefinedType
    loop (typeSuffix start)
  else if k == .identifier then
    name inner true
    loop (typeSuffix start)
  else
    complain "expected type"

/-- A written type whose type arguments nest at most `depth` deep. -/
def typeWithin : Nat → Parser Unit
  | 0 => pure ()
  | depth + 1 => typeWith (typeWithin depth)

/-- A written type. Each level of nesting takes a token of its own. -/
def type : Parser Unit := do
  typeWithin ((← get).rest.length + 1)

end CSharpKit.Syntax.Grammar
