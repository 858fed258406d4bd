import CSharpKit.Syntax.Grammar.Expressions

/-! # Grammar of statements -/

namespace CSharpKit.Syntax.Grammar

open CSharpKit.Syntax.Parser

variable (rules : Rules)

/-- A variable with its initial value. -/
def variableDeclarator : Parser Unit :=
  node .variableDeclarator do
    require .identifier "expected variable name"
    if ← isAt .lBracket then bracketedArgumentList rules
    if ← isAt .eq then equalsValueClause rules

def variableDeclarators : Parser Unit := separated (variableDeclarator rules)

/-- A type and the variables of that type. -/
def variableDeclaration : Parser Unit :=
  node .variableDeclaration do
    type
    variableDeclarators rules

/-- The statement that a condition or a loop governs. -/
def embeddedStatement : Parser Unit := do
  if ← isAtAny [.rBrace, .eof] then complain "expected statement" else rules .statement

def parenthesizedCondition : Parser Unit := do
  require .lParen "expected `(`"
  expression rules
  require .rParen "expected `)`"

/-- `return` and `throw`: a keyword and a value that may be left out. -/
def jump (kind : Kind) (missing : String) : Parser Unit :=
  node kind do
    bump
    unless ← isAt .semicolon do expression rules
    require .semicolon missing

def ifStatement : Parser Unit :=
  node .ifStatement do
    bump
    parenthesizedCondition rules
    embeddedStatement rules
    if ← isAt .elseKw then
      node .elseClause do
        bump
        embeddedStatement rules

def whileStatement : Parser Unit :=
  node .whileStatement do
    bump
    parenthesizedCondition rules
    embeddedStatement rules

/-- Expressions with commas between them, up to the token that ends the list. -/
def expressionList (terminator : Kind) : Parser Unit :=
  loop do
    expression rules
    if ← isAt terminator then return false else eat .comma

def forStatement : Parser Unit :=
  node .forStatement do
    bump
    require .lParen "expected `(`"
    unless ← isAt .semicolon do
      if ← ask Lookahead.atLocalDeclaration then variableDeclaration rules
      else expressionList rules .semicolon
    require .semicolon "expected `;`"
    unless ← isAt .semicolon do expression rules
    require .semicolon "expected `;`"
    unless ← isAt .rParen do expressionList rules .rParen
    require .rParen "expected `)`"
    embeddedStatement rules

def forEachStatement : Parser Unit :=
  node .forEachStatement do
    bump
    require .lParen "expected `(`"
    type
    require .identifier "expected loop variable"
    require .inKw "expected `in`"
    expression rules
    require .rParen "expected `)`"
    embeddedStatement rules

def constantDeclaration : Parser Unit :=
  node .localDeclarationStatement do
    leaf .modifiers
    variableDeclaration rules
    require .semicolon "expected `;`"

/-- A statement that no keyword opens: a declaration, an expression, or neither. -/
def plainStatement : Parser Unit := do
  if ← ask Lookahead.atLocalDeclaration then
    node .localDeclarationStatement do
      variableDeclaration rules
      require .semicolon "expected `;` after declaration"
  else if Lookahead.opensExpression (← peek) then
    node .expressionStatement do
      expression rules
      require .semicolon "expected `;` after expression"
  else
    node .error do
      complain "expected statement"
      skip

def statement : Parser Unit := do
  match ← peek with
  | .lBrace => block rules
  | .semicolon => leaf .emptyStatement
  | .returnKw => jump rules .returnStatement "expected `;` after return"
  | .throwKw => jump rules .throwStatement "expected `;` after throw"
  | .breakKw =>
    node .breakStatement do
      bump
      require .semicolon "expected `;`"
  | .continueKw =>
    node .continueStatement do
      bump
      require .semicolon "expected `;`"
  | .ifKw => ifStatement rules
  | .whileKw => whileStatement rules
  | .forKw => forStatement rules
  | .foreachKw => forEachStatement rules
  | .constKw => constantDeclaration rules
  | _ => plainStatement rules

end CSharpKit.Syntax.Grammar
