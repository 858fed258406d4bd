import CSharpKit.Syntax.Token

/-! # Lookahead

Questions about the tokens ahead that decide between two readings of the same
beginning. They read the list of remaining tokens, skip trivia between the
tokens they look at, and change nothing. A scan returns the tokens behind what
it recognised. -/

namespace CSharpKit.Syntax.Lookahead

/-- The tokens from the first one that is not trivia. -/
def significant (ts : List Token) : List Token := ts.dropWhile Token.isTrivia

/-- The tokens behind the first one, from the next one that is not trivia. -/
def next (ts : List Token) : List Token := significant ts.tail

/-- The kind of the first token of a list. -/
def headKind? (ts : List Token) : Option Kind := ts.head?.map Token.kind

def startsWith (kind : Kind) (ts : List Token) : Bool := headKind? ts == some kind

/-- The kind of the next token that is not trivia. -/
def kind (ts : List Token) : Kind := (headKind? (significant ts)).getD .eof

/-- The text of the next token that is not trivia. -/
def text (ts : List Token) : String := ((significant ts).head?.map Token.text).getD ""

/-- The tokens from place `n` on, not counting trivia. -/
def dropSignificant : Nat → List Token → List Token
  | 0, ts => significant ts
  | n + 1, ts => next (dropSignificant n ts)

/-- The kind of the token at place `n`, not counting trivia. -/
def kindAt? (n : Nat) (ts : List Token) : Option Kind := headKind? (dropSignificant n ts)

/-- Whether the next token is an identifier with this text. -/
def atWord (word : String) (ts : List Token) : Bool := kind ts == .identifier && text ts == word

/-- Whether the next token may open a type. -/
def atType (ts : List Token) : Bool :=
  kind ts == .identifier || (kind ts).isPredefinedType || kind ts == .voidKw

/-- Whether the next token is a modifier. `new` before a parenthesis creates an
object, and `partial`, `async` and `required` are modifiers before a word only. -/
def atModifier (ts : List Token) : Bool :=
  let k := kind ts
  if k.isModifier || k == .eventKw then k != .newKw || kindAt? 1 ts != some .lParen
  else if k == .identifier && ["partial", "async", "required"].contains (text ts) then
    (kindAt? 1 ts).any fun k => k == .identifier || k.isKeyword
  else false

/-- Whether the next token may open a member of a file or a namespace. -/
def atMember (ts : List Token) : Bool :=
  [.namespaceKw, .classKw, .structKw, .interfaceKw, .enumKw, .delegateKw, .lBracket].contains
    (kind ts) || atModifier ts

/-- Behind the closing token that matches the first one. -/
def skipBalanced (opening closing : Kind) : Nat → List Token → List Token
  | _, [] => []
  | depth, t :: rest =>
    if t.kind == opening then skipBalanced opening closing (depth + 1) rest
    else if t.kind == closing then
      if depth ≤ 1 then rest else skipBalanced opening closing (depth - 1) rest
    else if t.kind == .eof then t :: rest
    else skipBalanced opening closing depth rest

/-- Commas in a row. -/
def skipCommas : Nat → List Token → List Token
  | 0, ts => ts
  | n + 1, ts => if startsWith .comma ts then skipCommas n (next ts) else ts

/-- The suffixes `?` and `[,]` of a type. A `?` is one unless what follows shows
that it opens a conditional. -/
def scanSuffixes : Nat → List Token → List Token
  | 0, ts => ts
  | n + 1, ts =>
    let here := significant ts
    match headKind? here with
    | some .question =>
      let after := next here
      match headKind? after with
      | some .identifier =>
        if startsWith .colon (next after) then ts else scanSuffixes n here.tail
      | some .lBracket | some .greater | some .comma | some .rParen => scanSuffixes n here.tail
      | _ => ts
    | some .lBracket =>
      let close := skipCommas n (next here)
      if startsWith .rBracket close then scanSuffixes n close.tail else ts
    | _ => ts

/-- A scan of the tokens ahead; `none` if they are not what it looks for. -/
abbrev Scan := List Token → Option (List Token)

/-- The slots of a type argument list from behind its `<` to behind its `>`. -/
def scanSlots (scanType : Scan) : Nat → Scan
  | 0, _ => none
  | n + 1, ts =>
    match headKind? ts with
    | some .comma => scanSlots scanType n (next ts)
    | some .greater => some ts.tail
    | _ =>
      match scanType ts with
      | none => none
      | some rest =>
        let rest := significant rest
        match headKind? rest with
        | some .greater => some rest.tail
        | some .comma => scanSlots scanType n (next rest)
        | _ => none

/-- A type argument list; the first token is its `<`. -/
def scanTypeArguments (scanType : Scan) (ts : List Token) : Option (List Token) :=
  scanSlots scanType ts.length (next ts)

/-- An identifier, with type arguments if they follow. -/
def scanSimpleName (scanType : Scan) (ts : List Token) : List Token :=
  if startsWith .less (next ts) then (scanTypeArguments scanType (next ts)).getD ts.tail
  else ts.tail

/-- The further segments of a name, each behind `.` or `::`. -/
def scanSegments (scanType : Scan) : Nat → Scan
  | 0, ts => some ts
  | n + 1, ts =>
    let here := significant ts
    if startsWith .dot here || startsWith .colonColon here then
      if startsWith .identifier (next here) then
        scanSegments scanType n (scanSimpleName scanType (next here))
      else none
    else some ts

/-- A type whose type arguments `scanType` recognises. -/
def scanTypeWith (scanType : Scan) (ts : List Token) : Option (List Token) :=
  match headKind? ts with
  | none => none
  | some k =>
    if k.isPredefinedType then some (scanSuffixes ts.length ts.tail)
    else if k == .identifier then
      (scanSegments scanType ts.length (scanSimpleName scanType ts)).map (scanSuffixes ts.length)
    else none

/-- A type with type arguments nested at most `depth` deep. -/
def scanTypeWithin : Nat → Scan
  | 0 => fun _ => none
  | depth + 1 => scanTypeWith (scanTypeWithin depth)

/-- A type; the first token is not trivia. Each level of nesting takes a token of its own. -/
def scanType (ts : List Token) : Option (List Token) := scanTypeWithin (ts.length + 1) ts

/-- Whether a type and a name follow, and then a token of one of the kinds. -/
def atTypedName (followers : List Kind) (ts : List Token) : Bool :=
  match scanType (significant ts) with
  | none => false
  | some rest =>
    let name := significant rest
    startsWith .identifier name && (headKind? (next name)).any (followers.contains ·)

/-- Whether a declaration of local variables follows. -/
def atLocalDeclaration (ts : List Token) : Bool := atTypedName [.eq, .semicolon, .comma, .inKw] ts

/-- Whether the declaration of a variable follows behind `out`. -/
def atOutDeclaration (ts : List Token) : Bool := atTypedName [.comma, .rParen] ts

/-- Whether the parenthesis at place `n` and its partner stand before `=>`. -/
def atLambdaParen (n : Nat) (ts : List Token) : Bool :=
  startsWith .arrow (significant (skipBalanced .lParen .rParen 0 (dropSignificant n ts)))

/-- Tokens that may open an expression. -/
def opensExpression : Kind → Bool
  | .identifier | .intLiteral | .realLiteral | .charLiteral | .stringLiteral | .trueKw | .falseKw
  | .nullKw | .thisKw | .baseKw | .newKw | .typeofKw | .defaultKw | .throwKw | .lParen | .plus
  | .minus | .bang | .tilde | .plusPlus | .minusMinus => true
  | k => k.isPredefinedType

/-- How an operator between two operands binds: it takes a left operand that
binds at least as tight as `left`, a right one as tight as `right`, and makes a
node of kind `node`. -/
structure Binding where
  left : Nat
  right : Nat
  node : Kind
  deriving DecidableEq

namespace Binding

/-- Binds to the left: operators of one level in a row group from the left. -/
def leftward (power : Nat) : Binding := ⟨power, power + 1, .binaryExpression⟩

def assignment : Binding := ⟨1, 1, .assignmentExpression⟩

def conditionalPower : Nat := 3

def relationalPower : Nat := 19

def shift : Binding := leftward 21

/-- The binding of an operator of one token. -/
def ofKind? : Kind → Option Binding
  | .star | .slash | .percent => some (leftward 25)
  | .plus | .minus => some (leftward 23)
  | .leftShift => some shift
  | .less | .lessEq | .greater | .greaterEq => some (leftward relationalPower)
  | .eqEq | .bangEq => some (leftward 17)
  | .amp => some (leftward 15)
  | .caret => some (leftward 13)
  | .pipe => some (leftward 11)
  | .ampAmp => some (leftward 9)
  | .pipePipe => some (leftward 7)
  | .questionQuestion => some ⟨5, 5, .binaryExpression⟩
  | .eq | .plusEq | .minusEq | .starEq | .slashEq | .percentEq | .ampEq | .pipeEq | .caretEq
  | .leftShiftEq | .questionQuestionEq => some assignment
  | _ => none

end Binding

/-- Whether a token opens an expression and cannot continue one. -/
def opensOperandOnly (k : Kind) : Bool := opensExpression k && (Binding.ofKind? k).isNone

/-- Whether the parenthesis ahead opens a cast: a type stands in it, and an
operand follows. After a keyword for a type a sign counts as an operand too. -/
def atCast (ts : List Token) : Bool :=
  let inner := dropSignificant 1 ts
  match scanType inner with
  | none => false
  | some rest =>
    let close := significant rest
    if !startsWith .rParen close then false
    else
      let keywordOnly :=
        (headKind? inner).any Kind.isPredefinedType && rest.length + 1 == inner.length
      match headKind? (next close) with
      | none => false
      | some k =>
        if keywordOnly then opensOperandOnly k || k == .minus || k == .plus
        else
          match k with
          | .identifier | .intLiteral | .realLiteral | .charLiteral | .stringLiteral | .trueKw
          | .falseKw | .nullKw | .thisKw | .baseKw | .newKw | .typeofKw | .defaultKw | .bang
          | .tilde => true
          | k => k.isPredefinedType

/-- Tokens that may follow a generic name in an expression. -/
def followsGenericName : Kind → Bool
  | .lParen | .rParen | .rBracket | .rBrace | .colon | .semicolon | .comma | .dot | .question
  | .eqEq | .bangEq | .pipe | .caret | .ampAmp | .pipePipe | .amp | .lBracket | .eof => true
  | _ => false

/-- Whether the identifier ahead opens a generic name: a type argument list
follows, and behind it a token that cannot go on a comparison. -/
def atGenericName (ts : List Token) : Bool :=
  let less := dropSignificant 1 ts
  startsWith .less less &&
    match scanTypeArguments scanType less with
    | none => false
    | some rest => (headKind? (significant rest)).all followsGenericName

/-- The second half of `>>` or `>>=`, which arrive as two tokens side by side. -/
def shiftTail? (ts : List Token) : Option Kind :=
  match significant ts with
  | a :: b :: _ =>
    if a.kind == .greater && (b.kind == .greater || b.kind == .greaterEq) then some b.kind else none
  | _ => none

/-- How the operator ahead binds, if there is one. -/
def binding? (ts : List Token) : Option Binding :=
  match shiftTail? ts with
  | some .greaterEq => some .assignment
  | some _ => some .shift
  | none => Binding.ofKind? (kind ts)

end CSharpKit.Syntax.Lookahead
