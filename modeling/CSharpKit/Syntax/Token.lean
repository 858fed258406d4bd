import CSharpKit.Syntax.Kind
import CSharpKit.Text.CharClass
import CSharpKit.Text.Span

/-! # Tokens

`Token.lex` cuts a text into tokens. Each step takes the next character and
asks how many of the following ones belong to the same token, so a step always
moves on, and the texts of the tokens in a row are the text that was read. The
last token stands for the end of the text and is empty. -/

namespace CSharpKit.Syntax

open Text

/-- A piece of source text with its kind and the position where it starts. -/
structure Token where
  kind : Kind
  text : String
  start : Nat
  deriving DecidableEq, Inhabited

namespace Token

def span (t : Token) : Span := ⟨t.start, t.text.utf8ByteSize⟩

def isTrivia (t : Token) : Bool := t.kind.isTrivia

/-- A character that may open an identifier. -/
def opensIdentifier (c : Char) : Bool := c == '_' || isAlphabetic c

/-- A character that may follow in an identifier. -/
def continuesIdentifier (c : Char) : Bool := c == '_' || isAlphanumeric c

/-- The length of the longest run of characters with the property `p`. -/
def runLength (p : Char → Bool) : List Char → Nat
  | [] => 0
  | c :: rest => if p c then runLength p rest + 1 else 0

/-- The length of a text up to and with the first `*/`, or of all of it. -/
def commentTail : List Char → Nat
  | [] => 0
  | '*' :: '/' :: _ => 2
  | _ :: rest => commentTail rest + 1

/-- The rest of a literal after its opening quote. A backslash takes the next
character with it, which is what `escaped` says of the first one here, and an
unclosed literal stops before the end of the line. -/
def quotedTail (quote : Char) (escaped : Bool) : List Char → Nat
  | [] => 0
  | c :: rest =>
    if escaped then quotedTail quote false rest + 1
    else if isLineBreak c then 0
    else if c == quote then 1
    else quotedTail quote (c == '\\') rest + 1

/-- The two marks before a string literal that change how it is read. -/
structure StringStyle where
  verbatim : Bool
  interpolated : Bool
  deriving DecidableEq

/-- The rest of a marked string literal after its opening quote. `depth` counts
the open holes, and `taken` says that the first character belongs to what stands
before it: to an escape, a doubled brace or a doubled quote. Only a quote
outside all holes closes the literal. -/
def stringTail (style : StringStyle) (depth : Nat) (taken : Bool) : List Char → Nat
  | [] => 0
  | c :: rest =>
    if taken then stringTail style depth false rest + 1
    else if c == '\x7b' && style.interpolated then
      if depth == 0 && rest.head? == some '\x7b' then stringTail style depth true rest + 1
      else stringTail style (depth + 1) false rest + 1
    else if c == '\x7d' && style.interpolated && 0 < depth then
      stringTail style (depth - 1) false rest + 1
    else if c == '\\' && !style.verbatim then stringTail style depth true rest + 1
    else if c == '\x22' && depth == 0 then
      if style.verbatim && rest.head? == some '\x22' then stringTail style depth true rest + 1
      else 1
    else if c == '\n' && !style.verbatim && depth == 0 then 1
    else stringTail style depth false rest + 1

/-- A token found at the front of a text: its kind, and how many characters
after the first one belong to it. -/
abbrev Extent := Kind × Nat

/-- Comments; `none` if the slash opens none. -/
def scanComment (rest : List Char) : Option Extent :=
  let line := runLength (!isLineBreak ·) rest
  match rest with
  | '/' :: '/' :: _ => some (.docComment, line)
  | '/' :: _ => some (.lineComment, line)
  | '*' :: '*' :: '/' :: _ => some (.multiLineComment, 3)
  | '*' :: '*' :: body => some (.docComment, commentTail ('*' :: body) + 1)
  | '*' :: body => some (.multiLineComment, commentTail body + 1)
  | _ => none

/-- Tokens that open with `@` or `$`. -/
def scanMarked (c : Char) (rest : List Char) : Extent :=
  match c, rest with
  | '$', '@' :: '\x22' :: body | '@', '$' :: '\x22' :: body =>
    (.stringLiteral, stringTail ⟨true, true⟩ 0 false body + 2)
  | '@', '\x22' :: body => (.stringLiteral, stringTail ⟨true, false⟩ 0 false body + 1)
  | '$', '\x22' :: body => (.stringLiteral, stringTail ⟨false, true⟩ 0 false body + 1)
  | '@', d :: body =>
    if opensIdentifier d then (.identifier, runLength continuesIdentifier body + 1) else (.error, 0)
  | _, _ => (.error, 0)

def isHexDigit (c : Char) : Bool :=
  c.isDigit || ('a' ≤ c && c ≤ 'f') || ('A' ≤ c && c ≤ 'F')

/-- Whether a digit stands at place `n` of a text. -/
def digitAt (n : Nat) (cs : List Char) : Bool := (cs[n]?).any Char.isDigit

/-- The length of a fraction: a point and the digits behind it. -/
def fractionLength : List Char → Nat
  | '.' :: rest => if digitAt 0 rest then runLength (fun c => c.isDigit || c == '_') rest + 1 else 0
  | _ => 0

/-- The length of an exponent: its letter, a sign if there is one, and digits. -/
def exponentLength : List Char → Nat
  | c :: rest =>
    if c == 'e' || c == 'E' then
      let sign := if (rest[0]?).any (fun d => d == '+' || d == '-') then 1 else 0
      if digitAt sign rest then runLength Char.isDigit (rest.drop sign) + sign + 1 else 0
    else 0
  | [] => 0

/-- The suffix of a number: whether it makes the number real, and its length. -/
def numberSuffix : List Char → Bool × Nat
  | [] => (false, 0)
  | c :: rest =>
    if "fFdDmM".toList.contains c then (true, 1)
    else (false, runLength ("uUlL".toList.contains ·) (c :: rest))

/-- Numbers. The text `cs` opens with a digit, or with a point and a digit. -/
def scanNumber (cs : List Char) : Extent :=
  let isDecimal (c : Char) : Bool := c.isDigit || c == '_'
  let (real, body) :=
    match cs with
    | '0' :: 'x' :: rest | '0' :: 'X' :: rest =>
      (false, runLength (fun c => isHexDigit c || c == '_') rest + 2)
    | '0' :: 'b' :: rest | '0' :: 'B' :: rest =>
      (false, runLength (fun c => c == '0' || c == '1' || c == '_') rest + 2)
    | _ =>
      let whole := runLength isDecimal cs
      let fraction := fractionLength (cs.drop whole)
      let exponent := exponentLength (cs.drop (whole + fraction))
      (0 < fraction || 0 < exponent, whole + fraction + exponent)
  let (realSuffix, suffix) := numberSuffix (cs.drop body)
  (if real || realSuffix then .realLiteral else .intLiteral, body + suffix - 1)

/-- Punctuation and operators; a text stands before every proper beginning of it. -/
def operators : List (List Char × Kind) := [
  (['?', '?', '='], .questionQuestionEq), (['<', '<', '='], .leftShiftEq),
  ([':', ':'], .colonColon), (['?', '?'], .questionQuestion), (['?', '.'], .questionDot),
  (['=', '>'], .arrow), (['=', '='], .eqEq), (['!', '='], .bangEq), (['+', '+'], .plusPlus),
  (['+', '='], .plusEq), (['-', '-'], .minusMinus), (['-', '='], .minusEq),
  (['*', '='], .starEq), (['/', '='], .slashEq), (['%', '='], .percentEq),
  (['&', '&'], .ampAmp), (['&', '='], .ampEq), (['|', '|'], .pipePipe), (['|', '='], .pipeEq),
  (['^', '='], .caretEq), (['<', '<'], .leftShift), (['<', '='], .lessEq),
  (['>', '='], .greaterEq), (['('], .lParen), ([')'], .rParen), (['\x7b'], .lBrace),
  (['\x7d'], .rBrace), (['['], .lBracket), ([']'], .rBracket), ([';'], .semicolon),
  ([','], .comma), (['.'], .dot), ([':'], .colon), (['?'], .question), (['='], .eq),
  (['!'], .bang), (['~'], .tilde), (['+'], .plus), (['-'], .minus), (['*'], .star),
  (['/'], .slash), (['%'], .percent), (['&'], .amp), (['|'], .pipe), (['^'], .caret),
  (['<'], .less), (['>'], .greater)]

/-- Punctuation and operators. `?.` before a digit is no operator: there the
point belongs to a number. -/
def scanOperator (cs : List Char) : Extent :=
  let fits (entry : List Char × Kind) : Bool :=
    entry.1.isPrefixOf cs && !(entry.2 == .questionDot && digitAt 2 cs)
  match operators.find? fits with
  | some (text, kind) => (kind, text.length - 1)
  | none => (.error, 0)

/-- The token that opens with `c` and goes on into `rest`. A `#` opens a
directive only where nothing but blanks stands before it on its line. -/
def scan (lineStart : Bool) (c : Char) (rest : List Char) : Extent :=
  if isBlank c then (.whitespace, runLength isBlank rest)
  else if c == '#' && lineStart then
    (.preprocessorDirective, runLength (!isLineBreak ·) rest)
  else
    match (if c == '/' then scanComment rest else none) with
    | some extent => extent
    | none =>
      if c == '@' || c == '$' then scanMarked c rest
      else if opensIdentifier c then
        let n := runLength continuesIdentifier rest
        ((Kind.ofKeyword? (String.ofList (c :: rest.take n))).getD .identifier, n)
      else if c.isDigit || (c == '.' && digitAt 0 rest) then scanNumber (c :: rest)
      else if c == '\x22' then (.stringLiteral, quotedTail c false rest)
      else if c == '\x27' then (.charLiteral, quotedTail c false rest)
      else scanOperator (c :: rest)

/-- Whether a `#` behind a token would stand at the start of its line, where
`before` says so for the token itself. -/
def lineStartAfter (before : Bool) (kind : Kind) (text : List Char) : Bool :=
  kind == .whitespace && (before || text.any isLineBreak)

/-- The tokens of a text that starts at position `start`. -/
def lexFrom (lineStart : Bool) (start : Nat) : List Char → List Token
  | [] => [⟨.eof, "", start⟩]
  | c :: rest =>
    let (kind, n) := scan lineStart c rest
    let chars := c :: rest.take n
    let token : Token := ⟨kind, String.ofList chars, start⟩
    token :: lexFrom (lineStartAfter lineStart kind chars) token.span.stop (rest.drop n)
termination_by cs => cs.length
decreasing_by simp only [List.length_cons, List.length_drop]; omega

/-- The tokens of a text. -/
def lex (text : String) : List Token := lexFrom true 0 text.toList

end Token

end CSharpKit.Syntax
