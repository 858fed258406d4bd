import CSharpKit.Syntax.Cursor

/-! # Parts of constructs

The parts of a construct are found among the children of its node by kind: the
first child that fits, or all that do. Recovery may leave any part out, so a
single part is always optional. -/

namespace CSharpKit.Syntax.Cursor

/-- The first child node of a kind. -/
def childOf? (c : Cursor) (p : Kind → Bool) : Option Cursor := c.children.find? fun d => p d.kind

/-- The child nodes of a kind. -/
def childrenOf (c : Cursor) (p : Kind → Bool) : List Cursor := c.children.filter fun d => p d.kind

def child? (c : Cursor) (kind : Kind) : Option Cursor := c.childOf? (· == kind)

def childrenOfKind (c : Cursor) (kind : Kind) : List Cursor := c.childrenOf (· == kind)

/-- The first token of a kind among the children. -/
def token? (c : Cursor) (kind : Kind) : Option Cursor := c.tokens.find? fun t => t.kind == kind

/-- The tokens among the children that are not trivia. -/
def plainTokens (c : Cursor) : List Cursor := c.tokens.filter fun t => !t.kind.isTrivia

/-- The name a construct declares or writes. -/
def nameToken? (c : Cursor) : Option Cursor := c.token? .identifier

def name? (c : Cursor) : Option String := c.nameToken?.map text

/-- The type a construct writes. -/
def type? (c : Cursor) : Option Cursor := c.childOf? Kind.isType

/-- The types a list writes: its type arguments or base types. -/
def types (c : Cursor) : List Cursor := c.childrenOf Kind.isType

/-- The expression in a construct. -/
def expression? (c : Cursor) : Option Cursor := c.childOf? Kind.isExpr

def expressions (c : Cursor) : List Cursor := c.childrenOf Kind.isExpr

/-! ## Files and namespaces -/

def usings (c : Cursor) : List Cursor := c.childrenOfKind .usingDirective

def members (c : Cursor) : List Cursor := c.childrenOf Kind.isMember

def isStaticUsing (c : Cursor) : Bool := (c.token? .staticKw).isSome

/-- `X` in `using X = …;`. -/
def usingAlias? (c : Cursor) : Option Cursor := (c.token? .eq).bind fun _ => c.nameToken?

/-! ## Declarations -/

def modifiers? (c : Cursor) : Option Cursor := c.child? .modifiers

def hasModifier (c : Cursor) (kind : Kind) : Bool :=
  c.modifiers?.any fun m => m.plainTokens.any fun t => t.kind == kind

def typeParameterList? (c : Cursor) : Option Cursor := c.child? .typeParameterList

def typeParameters (c : Cursor) : List Cursor := c.childrenOfKind .typeParameter

def baseList? (c : Cursor) : Option Cursor := c.child? .baseList

def enumMembers (c : Cursor) : List Cursor := c.childrenOfKind .enumMemberDeclaration

def parameterList? (c : Cursor) : Option Cursor := c.child? .parameterList

/-- The parameters in a list. -/
def listedParameters (c : Cursor) : List Cursor := c.childrenOfKind .parameter

/-- The parameters of a method, constructor or delegate. -/
def parameters (c : Cursor) : List Cursor := (c.parameterList?.map listedParameters).getD []

def body? (c : Cursor) : Option Cursor := c.child? .block

def arrowBody? (c : Cursor) : Option Cursor := c.child? .arrowExpressionClause

def variableDeclaration? (c : Cursor) : Option Cursor := c.child? .variableDeclaration

def declarators (c : Cursor) : List Cursor := c.childrenOfKind .variableDeclarator

def accessorList? (c : Cursor) : Option Cursor := c.child? .accessorList

def accessors (c : Cursor) : List Cursor := c.childrenOfKind .accessorDeclaration

/-- `= value` behind a parameter, a variable or a property. -/
def equalsValue? (c : Cursor) : Option Cursor := c.child? .equalsValueClause

/-! ## Names and types -/

def typeArgumentList? (c : Cursor) : Option Cursor := c.child? .typeArgumentList

/-- The type arguments a generic name writes. -/
def typeArguments (c : Cursor) : List Cursor := (c.typeArgumentList?.map types).getD []

/-- The number of slots of a generic name, counted by its commas. -/
def arity (c : Cursor) : Nat :=
  match c.typeArgumentList? with
  | some list => (list.elements.filter fun e => e.kind == .comma).length + 1
  | none => 0

/-- The segment behind the last dot of a qualified name. -/
def lastSegment? (c : Cursor) : Option Cursor := (c.childrenOf Kind.isSimpleName).getLast?

/-- `Name` in `alias::Name`. -/
def aliasedName? (c : Cursor) : Option Cursor := (c.childrenOf Kind.isSimpleName)[1]?

def rankCount (c : Cursor) : Nat := (c.childrenOfKind .arrayRankSpecifier).length

/-! ## Statements -/

/-- What a `foreach` runs over; its first child is the type of the variable. -/
def collection? (c : Cursor) : Option Cursor := (c.children.drop 1).find? fun d => d.kind.isExpr

/-! ## Expressions -/

/-- The first token that is not trivia: a literal, a keyword or an operator. -/
def leadToken? (c : Cursor) : Option Cursor := c.plainTokens.head?

/-- The member that a member access names, behind its receiver. -/
def accessedName? (c : Cursor) : Option Cursor :=
  c.expression?.bind fun receiver =>
    c.children.find? fun d => receiver.stop ≤ d.start && d.kind.isSimpleName

def argumentList? (c : Cursor) : Option Cursor := c.childOf? Kind.isArgumentList

/-- The arguments in a list. -/
def listedArguments (c : Cursor) : List Cursor := c.childrenOfKind .argument

/-- The arguments of a call. -/
def arguments (c : Cursor) : List Cursor := (c.argumentList?.map listedArguments).getD []

def nameColon? (c : Cursor) : Option Cursor := c.child? .nameColon

/-- The name of a named argument. -/
def argumentName? (c : Cursor) : Option String :=
  ((c.nameColon?).bind (·.child? .identifierName)).bind name?

/-- `ref`, `out` or `in` before an argument. -/
def passing? (c : Cursor) : Option Cursor :=
  c.tokens.find? fun t => [.refKw, .outKw, .inKw].contains t.kind

def lambdaParameters (c : Cursor) : List Cursor :=
  if c.kind == .simpleLambdaExpression then c.listedParameters else c.parameters

/-- The operand of a cast, behind its type. -/
def castOperand? (c : Cursor) : Option Cursor :=
  c.type?.bind fun type => c.children.find? fun d => type.stop ≤ d.start && d.kind.isExpr

/-- The right operand of an operator. -/
def rightOperand? (c : Cursor) : Option Cursor := c.expressions[1]?

/-- The operator; `>>` is two tokens in the tree. -/
def operatorText (c : Cursor) : String := String.join (c.plainTokens.map text)

/-- The two values a conditional chooses from. -/
def branches (c : Cursor) : Option Cursor × Option Cursor := (c.expressions[1]?, c.expressions[2]?)

/-- The expression inside redundant parentheses; `fuel` bounds how many are taken off. -/
def unwrapParens : Nat → Cursor → Cursor
  | 0, c => c
  | fuel + 1, c =>
    if c.kind == .parenthesizedExpression then
      match c.expression? with
      | some inner => unwrapParens fuel inner
      | none => c
    else c

/-- The expression inside redundant parentheses. -/
def unparenthesized (c : Cursor) : Cursor := unwrapParens c.focus.depth c

end CSharpKit.Syntax.Cursor
