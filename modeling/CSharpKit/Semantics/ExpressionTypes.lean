import CSharpKit.Semantics.NameBinding
import CSharpKit.Semantics.Overload

/-! # Types of expressions

The type of an expression by its form, and the method that a call means. As for
names, the rules take the answers for other expressions as `Queries`. -/

namespace CSharpKit.Semantics

open Syntax

/-- The keyword of a number's type, by the letters at its end. -/
def integerKeyword (text : String) : Kind :=
  if text.endsWith "ul" || text.endsWith "lu" then .ulongKw
  else if text.endsWith "l" then .longKw
  else if text.endsWith "u" then .uintKw
  else .intKw

/-- The keyword of a real number's type, by the letter at its end. -/
def realKeyword (text : String) : Kind :=
  if text.endsWith "f" then .floatKw else if text.endsWith "m" then .decimalKw else .doubleKw

/-- The operators whose result is a truth value. -/
def comparisons : List String := ["==", "!=", "<", ">", "<=", ">=", "&&", "||"]

namespace Model

variable (m : Model)

def literalTy? (c : Cursor) : Option Ty := do
  let token ← c.leadToken?
  let text := token.text.map Char.toLower
  match token.kind with
  | .intLiteral => m.table.keywordTy? (integerKeyword text)
  | .realLiteral => m.table.keywordTy? (realKeyword text)
  | .stringLiteral => m.table.keywordTy? .stringKw
  | .charLiteral => m.table.keywordTy? .charKw
  | .trueKw | .falseKw => m.table.keywordTy? .boolKw
  | .nullKw => some .null
  | _ => none

/-- The type of an operation on two values: text if one of them is added to text,
else the type to which the other converts. -/
def arithmeticTy (op : String) (left : Ty) (right? : Option Ty) : Ty :=
  let string? := m.table.keywordTy? .stringKw
  match string? with
  | some string =>
    if op == "+" && (left = string || right? = some string) then string
    else widest left right?
  | none => widest left right?
where
  widest (left : Ty) : Option Ty → Ty
    | some right => if (Conversion.find? m.table left right).isSome then right else left
    | none => left

def binaryTy? (q : Queries) (c : Cursor) : Option Ty :=
  let op := c.operatorText
  if comparisons.contains op then m.table.keywordTy? .boolKw
  else do
    let left ← q.typeOf (← c.expression?)
    if op == "??" then return left
    return m.arithmeticTy op left (c.rightOperand?.bind q.typeOf)

def unaryTy? (q : Queries) (c : Cursor) : Option Ty :=
  if c.kind == .prefixUnaryExpression && (c.token? .bang).isSome then m.table.keywordTy? .boolKw
  else c.expression?.bind q.typeOf

/-! ## Calls -/

/-- The name that a call calls, behind the last dot. -/
def calleeNode? (call : Cursor) : Option Cursor := do
  let callee := (← call.expression?).unparenthesized
  if callee.kind == .memberAccessExpression then callee.accessedName?
  else if callee.kind.isSimpleName then some callee
  else none

/-- `M` in `a.b.M<T>(…)`. -/
def calleeName? (call : Cursor) : Option String := (calleeNode? call).bind Cursor.name?

/-- The type arguments that a call writes. -/
def explicitArguments? (call : Cursor) : Option (List Ty) := do
  let list ← (← calleeNode? call).typeArgumentList?
  return list.types.map (m.scope call).resolveType

/-- What is known of an argument without its method. -/
def argumentShape (q : Queries) (argument : Cursor) : ArgumentShape :=
  match argument.expression? with
  | none => .unknown
  | some value =>
    if value.kind.isLambda then .lambda value.lambdaParameters.length
    else
      match q.typeOf value with
      | some ty => .typed ty
      | none => .unknown

def callArguments (q : Queries) (call : Cursor) : CallArguments where
  names := call.arguments.map Cursor.argumentName?
  shapes := call.arguments.map (argumentShape q)

/-- The type of the value that an extension method is called on. -/
def thisArgumentWith? (q : Queries) (call : Cursor) : Option Ty :=
  match call.expression?.bind q.symbolOf with
  | some (.methods _ _ thisArgument?) => thisArgument?
  | _ => none

/-- The method that a call means. -/
def invokedMethodWith? (q : Queries) (call : Cursor) : Option MethodId :=
  match call.expression?.bind q.symbolOf with
  | some (.methods candidates receiver? thisArgument?) =>
    Fit.choose? m.table candidates ⟨receiver?, thisArgument?, m.explicitArguments? call⟩
      (callArguments q call)
  | _ => none

/-- The type arguments of a call of a method: those written, or those inferred. If
the method does not fit the call they are unknown. -/
def typeArgumentsWith (q : Queries) (call : Cursor) (method : MethodId) (receiver? : Option Ty) :
    List Ty :=
  let form : CallForm := ⟨receiver?, thisArgumentWith? q call, m.explicitArguments? call⟩
  match Fit.find? m.table method form (callArguments q call) with
  | some fit => fit.typeArguments
  | none => (m.table.method method).typeParams.map .error

/-- The type of the value that a call gives. A value that is called is a delegate. -/
def invocationTy? (q : Queries) (call : Cursor) : Option Ty := do
  match ← q.symbolOf (← call.expression?) with
  | .methods _ receiver? _ =>
    let method ← m.invokedMethodWith? q call
    let info := m.table.method method
    let ty := info.returnTy.through? receiver?
    if info.typeParams.isEmpty then return ty
    return ty.substitute (.method method) (m.typeArgumentsWith q call method receiver?)
  | value =>
    let delegate ← m.table.typeOfSymbol? value
    let invoke ← m.table.invoke? (← delegate.definition?)
    return Ty.throughReceiver delegate (m.table.method invoke).returnTy

/-- The type of an expression, given answers for those it depends on. -/
def typeOfWith (q : Queries) (c : Cursor) : Option Ty :=
  let c := c.unparenthesized
  match c.kind with
  | .literalExpression => m.literalTy? c
  | .identifierName | .genericName | .memberAccessExpression => do
    m.table.typeOfSymbol? (← q.symbolOf c)
  | .invocationExpression => m.invocationTy? q c
  | .objectCreationExpression | .castExpression | .asExpression | .defaultExpression =>
    c.type?.map m.resolveType
  | .assignmentExpression => c.expression?.bind q.typeOf
  | .conditionalExpression => c.branches.1.bind q.typeOf
  | .thisExpression => ((m.scope c).enclosingTypes.head?).map m.table.instanceType
  | .isExpression => m.table.keywordTy? .boolKw
  | .prefixUnaryExpression | .postfixUnaryExpression => m.unaryTy? q c
  | .binaryExpression => m.binaryTy? q c
  | .elementAccessExpression => do
    match ← q.typeOf (← c.expression?) with
    | .array element _ => some element
    | _ => none
  | _ => none

end Model

end CSharpKit.Semantics
