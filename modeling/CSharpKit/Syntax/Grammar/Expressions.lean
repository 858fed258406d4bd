import CSharpKit.Syntax.Grammar.Types

/-! # Grammar of expressions

Operators are read by climbing: an operand is read first, and as long as an
operator follows that binds at least as tight as asked, what is read so far
becomes its left operand. -/

namespace CSharpKit.Syntax.Grammar

open CSharpKit.Syntax.Parser

variable (rules : Rules)

/-- An expression of any kind. -/
def expression : Parser Unit := rules (.expression 0)

/-- `= value`. -/
def equalsValueClause : Parser Unit :=
  node .equalsValueClause do
    require .eq "expected `=`"
    expression rules

/-- Statements in braces. -/
def block : Parser Unit :=
  node .block do
    require .lBrace "expected `\x7b`"
    untilAny [.rBrace, .eof] (rules .statement)
    require .rBrace "expected `\x7d`"

/-- The inside of brackets of one sort up to the one that closes the first, as
plain tokens; `depth` of them are open. -/
def bracketed (opening closing : Kind) : Nat → Nat → Parser Unit
  | 0, _ => pure ()
  | fuel + 1, depth => do
    let k ← peek
    if k == .eof then
      pure ()
    else if k == opening then
      bump
      bracketed opening closing fuel (depth + 1)
    else if k == closing then
      let left ← countDown depth
      bump
      unless left == 0 do bracketed opening closing fuel left
    else
      bump
      bracketed opening closing fuel depth

/-- Brackets of one sort and all between them, as plain tokens. -/
def skipBracketed (opening closing : Kind) : Parser Unit := do
  bracketed opening closing (← get).rest.length 0

/-- Attribute lists, kept as plain tokens. -/
def attributeLists : Parser Unit :=
  whileAhead (Lookahead.kind · == .lBracket) do
    node .attributeList (skipBracketed .lBracket .rBracket)

def parameterModifiers : List Kind := [.refKw, .outKw, .inKw, .paramsKw, .thisKw]

/-- A parameter; where its type may be left out, a lone name is one. -/
def parameter (implicitType : Bool) : Parser Unit :=
  node .parameter do
    attributeLists
    if ← isAtAny parameterModifiers then
      node .modifiers (whileAhead (parameterModifiers.contains <| Lookahead.kind ·) bump)
    let bare := implicitType && (← isAt .identifier) &&
      ((← isAtNth 1 .comma) || (← isAtNth 1 .rParen))
    unless bare do type
    require .identifier "expected parameter name"
    if ← isAt .eq then equalsValueClause rules

/-- An argument, with its name and its way of passing if they are written. -/
def argument : Parser Unit :=
  node .argument do
    if (← isAt .identifier) && (← isAtNth 1 .colon) then
      node .nameColon do
        leaf .identifierName
        bump
    if ← isAtAny [.refKw, .outKw, .inKw] then
      let out ← isAt .outKw
      bump
      if out && (← ask Lookahead.atOutDeclaration) then
        type
        bump
      else
        expression rules
    else
      expression rules

def argumentList : Parser Unit :=
  node .argumentList do
    require .lParen "expected `(`"
    separatedUntil [.rParen, .eof] (argument rules)
    require .rParen "expected `)`"

def bracketedArgumentList : Parser Unit :=
  node .bracketedArgumentList do
    require .lBracket "expected `[`"
    separatedUntil [.rBracket, .eof] (argument rules)
    require .rBracket "expected `]`"

/-- A simple name in an expression; `<` opens type arguments only where the
tokens behind them show it. -/
def expressionName : Parser Unit := do
  simpleName type (← ask Lookahead.atGenericName)

/-- `alias::Name` in an expression. -/
def aliasQualifiedExpression : Parser Unit :=
  node .aliasQualifiedName do
    leaf .identifierName
    bump
    if ← isAt .identifier then expressionName else complain "expected name after `::`"

/-- The arrow and the body of a lambda. -/
def lambdaBody : Parser Unit := do
  require .arrow "expected `=>`"
  if ← isAt .lBrace then block rules else expression rules

/-- `x => …`, behind `async` if that is written. -/
def simpleLambda (isAsync : Bool) : Parser Unit :=
  node .simpleLambdaExpression do
    if isAsync then bump
    leaf .parameter
    lambdaBody rules

/-- `(a, b) => …`, behind `async` if that is written. -/
def parenthesizedLambda (isAsync : Bool) : Parser Unit :=
  node .parenthesizedLambdaExpression do
    if isAsync then bump
    node .parameterList do
      bump
      separatedUntil [.rParen, .eof] (parameter rules true)
      require .rParen "expected `)`"
    lambdaBody rules

/-- The type behind `new`, without brackets. -/
def createdType : Parser Unit := do
  let start ← mark
  if (← peek).isPredefinedType then leaf .predefinedType else name type true
  if ← isAt .question then nodeFrom start .nullableType bump

/-- `[length]` behind `new T`. -/
def creationRank : Parser Unit :=
  node .arrayRankSpecifier do
    bump
    separatedUntil [.rBracket, .eof] do
      unless ← isAt .comma do expression rules
    require .rBracket "expected `]`"

/-- An expression that opens with `new`. -/
def objectCreation : Parser Unit :=
  node .objectCreationExpression do
    bump
    if ← ask Lookahead.atType then createdType
    whileAhead (Lookahead.kind · == .lBracket) (creationRank rules)
    if ← isAt .lParen then argumentList rules
    if ← isAt .lBrace then rules .initializer

/-- Initial values in braces. -/
def initializer : Parser Unit :=
  node .initializerExpression do
    require .lBrace "expected `\x7b`"
    separatedUntil [.rBrace, .eof] do
      if ← isAt .lBrace then rules .initializer else expression rules
    require .rBrace "expected `\x7d`"

/-- What a parenthesis opens: a lambda, a cast or an expression. -/
def afterParen : Parser Unit := do
  if ← ask (Lookahead.atLambdaParen 0) then parenthesizedLambda rules false
  else if ← ask Lookahead.atCast then
    node .castExpression do
      bump
      type
      require .rParen "expected `)`"
      rules .unary
  else
    node .parenthesizedExpression do
      bump
      expression rules
      require .rParen "expected `)`"

/-- What an identifier opens: a lambda or a name. -/
def afterIdentifier : Parser Unit := do
  let isAsync ← ask (Lookahead.atWord "async")
  if isAsync && (← isAtNth 1 .lParen) && (← ask (Lookahead.atLambdaParen 1)) then
    parenthesizedLambda rules true
  else if isAsync && (← isAtNth 1 .identifier) && (← isAtNth 2 .arrow) then
    simpleLambda rules true
  else if ← isAtNth 1 .arrow then simpleLambda rules false
  else if ← isAtNth 1 .colonColon then aliasQualifiedExpression
  else expressionName

/-- An operand without operators; it reads nothing if there is none. -/
def primary : Parser Unit := do
  match ← peek with
  | .intLiteral | .realLiteral | .charLiteral | .stringLiteral | .trueKw | .falseKw | .nullKw =>
    leaf .literalExpression
  | .thisKw => leaf .thisExpression
  | .baseKw => leaf .baseExpression
  | .typeofKw =>
    node .typeOfExpression do
      bump
      require .lParen "expected `(`"
      type
      require .rParen "expected `)`"
  | .defaultKw =>
    node .defaultExpression do
      bump
      if ← eat .lParen then
        type
        require .rParen "expected `)`"
  | .newKw => objectCreation rules
  | .lParen => afterParen rules
  | .identifier => afterIdentifier rules
  | k => if k.isPredefinedType then leaf .predefinedType else complain "expected expression"

/-- What may follow the operand since a mark and belongs to it; `false` if nothing
does. -/
def postfixPart (start : Nat) : Parser Bool := do
  match ← peek with
  | .dot | .questionDot =>
    nodeFrom start .memberAccessExpression do
      bump
      if ← isAt .identifier then expressionName else complain "expected member name"
    return true
  | .lParen =>
    nodeFrom start .invocationExpression (argumentList rules)
    return true
  | .lBracket =>
    nodeFrom start .elementAccessExpression (bracketedArgumentList rules)
    return true
  | .plusPlus | .minusMinus =>
    nodeFrom start .postfixUnaryExpression bump
    return true
  | .bang =>
    if (← isAtNth 1 .eq) || (← isAtNth 1 .eqEq) then
      return false
    else
      nodeFrom start .postfixUnaryExpression bump
      return true
  | _ => return false

/-- An operand with what follows it; it reads nothing if there is none. -/
def operand : Parser Unit := do
  let start ← mark
  primary rules
  if ← grownSince start then loop (postfixPart rules start)

/-- An operand with the operators before it; it reads nothing if there is none. -/
def unary : Parser Unit := do
  match ← peek with
  | .plus | .minus | .bang | .tilde | .plusPlus | .minusMinus | .amp | .star | .throwKw =>
    node .prefixUnaryExpression do
      bump
      rules .unary
  | .identifier =>
    let isAwait ← ask fun ts =>
      Lookahead.atWord "await" ts &&
        (Lookahead.kindAt? 1 ts).any Lookahead.opensOperandOnly
    if isAwait then
      node .prefixUnaryExpression do
        bump
        rules .unary
    else
      operand rules
  | _ => operand rules

/-- `? a : b` behind a condition. -/
def conditionalPart (power start : Nat) : Parser Bool := do
  if Lookahead.Binding.conditionalPower < power then
    return false
  else
    nodeFrom start .conditionalExpression do
      bump
      expression rules
      require .colon "expected `:` in conditional expression"
      rules (.expression Lookahead.Binding.conditionalPower)
    return true

/-- `is T`, `is T name` or `is value` behind an operand. -/
def isPart (power start : Nat) : Parser Bool := do
  if Lookahead.Binding.relationalPower < power then
    return false
  else
    nodeFrom start .isExpression do
      bump
      if ← ask Lookahead.atType then
        type
        let _ ← eat .identifier
      else
        rules (.expression (Lookahead.Binding.relationalPower + 1))
    return true

/-- `as T` behind an operand. -/
def asPart (power start : Nat) : Parser Bool := do
  if Lookahead.Binding.relationalPower < power then
    return false
  else
    nodeFrom start .asExpression do
      bump
      type
    return true

/-- An operator and its right operand. -/
def binaryPart (power start : Nat) : Parser Bool := do
  match ← ask Lookahead.binding? with
  | none => return false
  | some binding =>
    if binding.left < power then
      return false
    else
      let isShift ← ask (Lookahead.shiftTail? · |>.isSome)
      nodeFrom start binding.node do
        bump
        if isShift then take
        rules (.expression binding.right)
      return true

/-- What may follow the left operand since a mark: an operator that binds as
tight as `power`; `false` if there is none. -/
def infixPart (power start : Nat) : Parser Bool := do
  match ← peek with
  | .question => conditionalPart rules power start
  | .isKw => isPart rules power start
  | .asKw => asPart power start
  | _ => binaryPart rules power start

/-- An expression whose operators bind at least as tight as `power`; it reads
nothing if there is no operand. -/
def expressionAbove (power : Nat) : Parser Unit := do
  let start ← mark
  rules .unary
  if ← grownSince start then loop (infixPart rules power start)

end CSharpKit.Syntax.Grammar
