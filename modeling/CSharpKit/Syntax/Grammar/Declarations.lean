import CSharpKit.Syntax.Grammar.Statements

/-! # Grammar of declarations

A declaration opens with attributes and modifiers, and only what follows them
shows its kind. They are read first, and the reader of the kind opens its node
at the mark before them. -/

namespace CSharpKit.Syntax.Grammar

open CSharpKit.Syntax.Parser

variable (rules : Rules)

def modifiers : Parser Unit := do
  if ← ask Lookahead.atModifier then
    node .modifiers (whileAhead Lookahead.atModifier bump)

/-- `where T : …` clauses are kept as plain tokens: the constraints of one up to
the body, the end of the declaration, or the next clause; `depth` counts open
parentheses and angle brackets. -/
def constraintTail : Nat → Nat → Parser Unit
  | 0, _ => pure ()
  | fuel + 1, depth => do
    let k ← peek
    let stops ← ask fun ts =>
      k == .eof || depth == 0 &&
        ([.lBrace, .semicolon, .arrow].contains k || Lookahead.atWord "where" ts)
    unless stops do
      bump
      if k == .lParen || k == .less then constraintTail fuel (depth + 1)
      else if k == .rParen || k == .greater then constraintTail fuel (depth - 1)
      else constraintTail fuel depth

def constraintClauses : Parser Unit :=
  whileAhead (Lookahead.atWord "where") do
    node .typeParameterConstraintClause do
      bump
      require .identifier "expected type parameter name"
      require .colon "expected `:`"
      constraintTail (← get).rest.length 0

def typeParameter : Parser Unit :=
  node .typeParameter do
    attributeLists
    if ← isAtAny [.inKw, .outKw] then bump
    require .identifier "expected type parameter name"

def typeParameterList : Parser Unit :=
  node .typeParameterList do
    require .less "expected `<`"
    separated typeParameter
    require .greater "expected `>`"

def baseList : Parser Unit :=
  node .baseList do
    require .colon "expected `:`"
    separated type

def parameterList : Parser Unit :=
  node .parameterList do
    if ← expect .lParen "expected `(`" then
      separatedUntil [.rParen, .eof] (parameter rules false)
      require .rParen "expected `)`"

def arrowExpressionClause : Parser Unit :=
  node .arrowExpressionClause do
    require .arrow "expected `=>`"
    expression rules

/-- The body of a member, or the semicolon that stands for none. -/
def bodyOrSemicolon : Parser Unit := do
  match ← peek with
  | .lBrace => block rules
  | .arrow =>
    arrowExpressionClause rules
    require .semicolon "expected `;` after expression body"
  | _ => require .semicolon "expected body or `;`"

def accessor : Parser Unit :=
  node .accessorDeclaration do
    attributeLists
    modifiers
    if ← eat .identifier then bodyOrSemicolon rules
    else
      complain "expected accessor"
      skip

def accessorList : Parser Unit :=
  node .accessorList do
    require .lBrace "expected `\x7b`"
    untilAny [.rBrace, .eof] (accessor rules)
    require .rBrace "expected `\x7d` to close accessor list"

/-- A semicolon behind a declaration that needs none. -/
def optionalSemicolon : Parser Unit := do
  let _ ← eat .semicolon

/-- A class, struct or interface. -/
def typeDeclaration (start : Nat) (kind : Kind) : Parser Unit :=
  nodeFrom start kind do
    bump
    require .identifier "expected type name"
    if ← isAt .less then typeParameterList
    if ← isAt .colon then baseList
    constraintClauses
    if ← expect .lBrace "expected `\x7b` to open type body" then
      untilAny [.rBrace, .eof] (rules .member)
      require .rBrace "expected `\x7d` to close type body"
    optionalSemicolon

def enumMember : Parser Unit :=
  node .enumMemberDeclaration do
    attributeLists
    require .identifier "expected enum member name"
    if ← isAt .eq then equalsValueClause rules

def enumDeclaration (start : Nat) : Parser Unit :=
  nodeFrom start .enumDeclaration do
    bump
    require .identifier "expected enum name"
    if ← isAt .colon then baseList
    if ← expect .lBrace "expected `\x7b` to open enum body" then
      loop do
        if ← isAtAny [.identifier, .lBracket] then
          enumMember rules
          eat .comma
        else
          return false
      require .rBrace "expected `\x7d` to close enum body"
    optionalSemicolon

def delegateDeclaration (start : Nat) : Parser Unit :=
  nodeFrom start .delegateDeclaration do
    bump
    type
    require .identifier "expected delegate name"
    if ← isAt .less then typeParameterList
    parameterList rules
    constraintClauses
    require .semicolon "expected `;` after delegate declaration"

/-- `: base(…)` or `: this(…)`, kept as plain tokens and the arguments. -/
def constructorInitializer : Parser Unit := do
  bump
  if ← isAtAny [.baseKw, .thisKw] then bump else complain "expected `base` or `this`"
  if ← isAt .lParen then argumentList rules

def constructorDeclaration (start : Nat) : Parser Unit :=
  nodeFrom start .constructorDeclaration do
    bump
    parameterList rules
    if ← isAt .colon then constructorInitializer rules
    bodyOrSemicolon rules

/-- One step over the rest of a member that could not be read. A block is
skipped as a whole, and ends the member unless an initial value follows. -/
def skipMemberPart : Parser Bool := do
  let k ← peek
  if [.eof, .rBrace, .classKw, .structKw, .interfaceKw, .enumKw, .delegateKw].contains k ||
      k.isModifier then
    return false
  else if k == .semicolon then
    bump
    return false
  else if k == .lBrace then
    skipBracketed .lBrace .rBrace
    isAt .eq
  else
    bump
    return true

/-- Skips to where the next member may start. -/
def skipMember : Parser Unit := loop skipMemberPart

def methodDeclaration (start : Nat) : Parser Unit :=
  nodeFrom start .methodDeclaration do
    bump
    if ← isAt .less then typeParameterList
    parameterList rules
    constraintClauses
    bodyOrSemicolon rules

def propertyDeclaration (start : Nat) : Parser Unit :=
  nodeFrom start .propertyDeclaration do
    bump
    if ← isAt .arrow then
      arrowExpressionClause rules
      require .semicolon "expected `;` after property"
    else
      accessorList rules
      if ← isAt .eq then
        equalsValueClause rules
        require .semicolon "expected `;` after initializer"

/-- A field whose type starts at the mark `typeStart`. -/
def fieldDeclaration (start typeStart : Nat) : Parser Unit :=
  nodeFrom start .fieldDeclaration do
    nodeFrom typeStart .variableDeclaration (variableDeclarators rules)
    require .semicolon "expected `;` after field declaration"

/-- A member that opens with a type: what follows its name tells its kind. -/
def typedMember (start : Nat) : Parser Unit := do
  let typeStart ← mark
  type
  let follower ← ask fun ts =>
    if Lookahead.kind ts == .identifier then Lookahead.kindAt? 1 ts else none
  match follower with
  | some .lParen | some .less => methodDeclaration rules start
  | some .lBrace | some .arrow => propertyDeclaration rules start
  | some _ => fieldDeclaration rules start typeStart
  | none =>
    nodeFrom start .error do
      complain "expected member name"
      skipMember

/-- A member behind its attributes and modifiers, which start at a mark. -/
def memberAfter (start : Nat) : Parser Unit := do
  match ← peek with
  | .classKw => typeDeclaration rules start .classDeclaration
  | .structKw => typeDeclaration rules start .structDeclaration
  | .interfaceKw => typeDeclaration rules start .interfaceDeclaration
  | .enumKw => enumDeclaration rules start
  | .delegateKw => delegateDeclaration rules start
  | k =>
    if k == .identifier && (← isAtNth 1 .lParen) then constructorDeclaration rules start
    else if ← ask Lookahead.atType then typedMember rules start
    else
      nodeFrom start .error do
        complain "expected member declaration"
        skip
        skipMember

/-- The attributes and modifiers of a declaration. -/
def declarationFront : Parser Unit := do
  attributeLists
  modifiers

/-- A member of a type. -/
def member : Parser Unit := do
  let start ← mark
  declarationFront
  memberAfter rules start

def usingDirective : Parser Unit :=
  node .usingDirective do
    require .usingKw "expected `using`"
    if ← isAt .staticKw then bump
    if (← isAt .identifier) && (← isAtNth 1 .eq) then
      bump
      bump
    type
    require .semicolon "expected `;` after using directive"

/-- A namespace behind its attributes and modifiers, which start at a mark. -/
def namespaceDeclaration (start : Nat) : Parser Unit := do
  require .namespaceKw "expected `namespace`"
  name type false
  if ← isAt .semicolon then
    nodeFrom start .fileScopedNamespaceDeclaration do
      bump
      rules (.namespaceBody false)
  else
    nodeFrom start .namespaceDeclaration do
      require .lBrace "expected `\x7b` after namespace name"
      rules (.namespaceBody true)
      require .rBrace "expected `\x7d` to close namespace"
      optionalSemicolon

/-- A member of a file or a namespace. -/
def namespaceMember : Parser Unit := do
  let start ← mark
  declarationFront
  if ← isAt .namespaceKw then namespaceDeclaration rules start else memberAfter rules start

/-- Tokens at which reading goes on after a stray token. -/
def namespaceAnchors : List Kind :=
  [.usingKw, .namespaceKw, .classKw, .structKw, .interfaceKw, .enumKw, .delegateKw, .publicKw,
    .internalKw, .lBracket]

/-- A stray token, and the tokens behind it up to the next anchor. -/
def strayTokens : Parser Unit :=
  node .error do
    complain "unexpected token at namespace level"
    skip
    skipTo namespaceAnchors

/-- One item of a file or a namespace; `false` at the end of it. -/
def namespaceItem (inBlock : Bool) : Parser Bool := do
  let k ← peek
  if k == .eof || inBlock && k == .rBrace then
    return false
  else
    if k == .usingKw then usingDirective
    else if ← ask Lookahead.atMember then namespaceMember rules
    else strayTokens
    return true

def namespaceBody (inBlock : Bool) : Parser Unit := loop (namespaceItem rules inBlock)

/-- The reader of a construct, where `rules` reads the constructs inside it. -/
def construct (rules : Rules) : Rules
  | .namespaceBody inBlock => namespaceBody rules inBlock
  | .member => member rules
  | .statement => statement rules
  | .expression power => expressionAbove rules power
  | .unary => unary rules
  | .initializer => initializer rules

/-- The rules for constructs that nest at most `depth` deep. -/
def within : Nat → Rules
  | 0 => fun _ => pure ()
  | depth + 1 => construct (within depth)

end CSharpKit.Syntax.Grammar
