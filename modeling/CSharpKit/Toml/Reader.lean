import CSharpKit.Toml.Value

/-! # Reading TOML values

A reader takes the characters that are left and returns what it has read with
the characters behind it, or `none` if the text is not well formed there. -/

namespace CSharpKit.Toml

open Number

def isGap (c : Char) : Bool := c == ' ' || c == '\t'

/-- The text behind spaces and tabs. -/
def skipGap (cs : List Char) : List Char := cs.dropWhile isGap

/-- The text behind a line break. -/
def lineBreak? : List Char → Option (List Char)
  | '\n' :: rest => some rest
  | '\r' :: '\n' :: rest => some rest
  | _ => none

/-- Characters that can stand in a comment: all but controls. -/
def isCommentChar (c : Char) : Bool := c == '\t' || (0x20 ≤ c.toNat && c.toNat != 0x7F)

/-- The text behind a comment, if there is one here. -/
def skipComment : List Char → List Char
  | '#' :: rest => rest.dropWhile isCommentChar
  | cs => cs

/-- The text behind the end of a line, which may have a comment. -/
def lineEnd? (cs : List Char) : Option (List Char) :=
  match skipComment (skipGap cs) with
  | [] => some []
  | rest => lineBreak? rest

/-- The text behind gaps, comments and line breaks; `fuel` bounds the lines. -/
def skipLines : Nat → List Char → List Char
  | 0, cs => cs
  | fuel + 1, cs =>
    match lineBreak? (skipComment (skipGap cs)) with
    | some rest => skipLines fuel rest
    | none => skipGap cs

/-! ## Strings -/

def hexValue? (c : Char) : Option Nat :=
  if '0' ≤ c && c ≤ '9' then some (c.toNat - 0x30)
  else if 'a' ≤ c && c ≤ 'f' then some (c.toNat - 0x57)
  else if 'A' ≤ c && c ≤ 'F' then some (c.toNat - 0x37)
  else none

/-- The character with a code in hexadecimal digits. -/
def hexChar? (digits : List Char) : Option Char := do
  let code ← digits.foldlM (fun n c => (hexValue? c).map (16 * n + ·)) 0
  if code < 0xD800 || (0xDFFF < code && code < 0x110000) then some (Char.ofNat code) else none

/-- What an escape behind its backslash means. -/
def escape? : List Char → Option (Char × List Char)
  | 'u' :: a :: b :: c :: d :: rest => (hexChar? [a, b, c, d]).map (·, rest)
  | 'U' :: a :: b :: c :: d :: e :: f :: g :: h :: rest =>
    (hexChar? [a, b, c, d, e, f, g, h]).map (·, rest)
  | 'b' :: rest => some ('\x08', rest)
  | 'f' :: rest => some ('\x0c', rest)
  | 'n' :: rest => some ('\n', rest)
  | 'r' :: rest => some ('\r', rest)
  | 't' :: rest => some ('\t', rest)
  | '\\' :: rest => some ('\\', rest)
  | '\x22' :: rest => some ('\x22', rest)
  | _ => none

/-- A character and then more. -/
def andMore (c : Char) (more : Option (List Char × List Char)) : Option (List Char × List Char) :=
  more.map fun (cs, rest) => (c :: cs, rest)

/-- A string in double quotes, behind the first one; `fuel` bounds its length. -/
def basicString : Nat → List Char → Option (List Char × List Char)
  | 0, _ => none
  | _, [] => none
  | _ + 1, '\x22' :: rest => some ([], rest)
  | fuel + 1, '\\' :: rest => (escape? rest).bind fun (c, rest) => andMore c (basicString fuel rest)
  | fuel + 1, c :: rest => if isCommentChar c then andMore c (basicString fuel rest) else none

/-- A string in single quotes, behind the first one. -/
def literalString : List Char → Option (List Char × List Char)
  | [] => none
  | '\x27' :: rest => some ([], rest)
  | c :: rest => if isCommentChar c then andMore c (literalString rest) else none

/-- What follows behind blanks and line breaks. -/
def skipBreaks : List Char → List Char
  | '\r' :: '\n' :: rest => skipBreaks rest
  | c :: rest => if isGap c || c == '\n' then skipBreaks rest else c :: rest
  | [] => []

/-- The text behind a line break that a backslash takes out together with the
blanks and line breaks around it. -/
def joinedLine? (cs : List Char) : Option (List Char) :=
  (lineBreak? (skipGap cs)).map skipBreaks

/-- A string over several lines, behind its opening quotes; `fuel` bounds its
length. Up to two quotes can stand before the closing ones. -/
def longString (quote : Char) (escapes : Bool) :
    Nat → List Char → Option (List Char × List Char)
  | 0, _ => none
  | fuel + 1, cs =>
    if [quote, quote, quote, quote, quote].isPrefixOf cs then some ([quote, quote], cs.drop 5)
    else if [quote, quote, quote, quote].isPrefixOf cs then some ([quote], cs.drop 4)
    else if [quote, quote, quote].isPrefixOf cs then some ([], cs.drop 3)
    else
      match lineBreak? cs, cs with
      | some rest, _ => andMore '\n' (longString quote escapes fuel rest)
      | none, [] => none
      | none, c :: rest =>
        if c == '\\' && escapes then
          match joinedLine? rest with
          | some rest => longString quote escapes fuel rest
          | none =>
            (escape? rest).bind fun (c, rest) => andMore c (longString quote escapes fuel rest)
        else if isCommentChar c then andMore c (longString quote escapes fuel rest)
        else none

/-- The text behind a line break that directly follows opening quotes. -/
def dropFirstBreak (cs : List Char) : List Char := (lineBreak? cs).getD cs

/-- A string of any form. -/
def string? (cs : List Char) : Option (String × List Char) :=
  let found :=
    match cs with
    | '\x22' :: '\x22' :: '\x22' :: rest => longString '\x22' true cs.length (dropFirstBreak rest)
    | '\x27' :: '\x27' :: '\x27' :: rest => longString '\x27' false cs.length (dropFirstBreak rest)
    | '\x22' :: rest => basicString cs.length rest
    | '\x27' :: rest => literalString rest
    | _ => none
  found.map fun (chars, rest) => (String.ofList chars, rest)

/-! ## Keys -/

/-- The greatest depth of nested values and of dotted keys is below this. -/
def depthLimit : Nat := 80

def isBareKeyChar (c : Char) : Bool := c.isAlphanum || c == '-' || c == '_'

/-- A key without dots. -/
def simpleKey? (cs : List Char) : Option (String × List Char) :=
  match cs with
  | '\x22' :: rest => (basicString cs.length rest).map fun (k, rest) => (String.ofList k, rest)
  | '\x27' :: rest => (literalString rest).map fun (k, rest) => (String.ofList k, rest)
  | _ =>
    let bare := cs.takeWhile isBareKeyChar
    if bare.isEmpty then none else some (String.ofList bare, cs.drop bare.length)

/-- The segments of a key; `fuel` bounds their number. -/
def keySegments : Nat → List Char → Option (List String × List Char)
  | 0, _ => none
  | fuel + 1, cs => do
    let (segment, rest) ← simpleKey? (skipGap cs)
    match skipGap rest with
    | '.' :: rest => (keySegments fuel rest).map fun (more, rest) => (segment :: more, rest)
    | rest => some ([segment], rest)

/-- A dotted key, as the segments before the last one and the last one. -/
def key? (cs : List Char) : Option ((List String × String) × List Char) := do
  let (segments, rest) ← keySegments (depthLimit - 1) cs
  return ((segments.dropLast, segments.getLastD ""), rest)

/-! ## Numbers -/

/-- Digits with single underscores between them. -/
def digitRun (p : Char → Bool) (cs : List Char) : Option (List Char × List Char) :=
  let run := cs.takeWhile fun c => p c || c == '_'
  let gaps := run.zip (run.drop 1 ++ ['_'])
  if run.isEmpty || run.head? == some '_' || gaps.any (fun (a, b) => a == '_' && b == '_') then none
  else some (run.filter (· != '_'), cs.drop run.length)

/-- The number that digits write. -/
def natOf (base : Nat) (digits : List Char) : Nat :=
  digits.foldl (fun n c => base * n + (hexValue? c).getD 0) 0

/-- A sign, if there is one. -/
def sign : List Char → Bool × List Char
  | '-' :: rest => (true, rest)
  | '+' :: rest => (false, rest)
  | cs => (false, cs)

/-- Decimal digits that do not start with a zero, or a zero alone. -/
def wholeDigits (cs : List Char) : Option (List Char × List Char) :=
  match digitRun Char.isDigit cs with
  | some ('0' :: _ :: _, _) => none
  | found => found

def signed (negative : Bool) (n : Nat) : Int := if negative then -n else n

/-- An integer of 64 bits. -/
def integerValue? (n : Int) : Option Value :=
  let bound : Int := 9223372036854775808
  if -bound ≤ n && n < bound then some (.integer n) else none

/-- An integer in another base, behind its mark. -/
def radixInteger (base : Nat) (cs : List Char) : Option (Value × List Char) := do
  let (digits, rest) ← digitRun (fun c => (hexValue? c).any (· < base)) cs
  return (← integerValue? (natOf base digits), rest)

def integer? (cs : List Char) : Option (Value × List Char) :=
  match cs with
  | '0' :: 'x' :: rest => radixInteger 16 rest
  | '0' :: 'o' :: rest => radixInteger 8 rest
  | '0' :: 'b' :: rest => radixInteger 2 rest
  | _ => do
    let (negative, rest) := sign cs
    let (digits, rest) ← wholeDigits rest
    return (← integerValue? (signed negative (natOf 10 digits)), rest)

/-- The exponent of a float, if one is written. -/
def exponent? (cs : List Char) : Option (Option Int × List Char) :=
  match cs with
  | c :: rest =>
    if c == 'e' || c == 'E' then do
      let (negative, rest) := sign rest
      let (digits, rest) ← digitRun Char.isDigit rest
      return (some (signed negative (natOf 10 digits)), rest)
    else some (none, cs)
  | [] => some (none, cs)

/-- The places behind the point of a float, if any are written. -/
def places? (cs : List Char) : Option (Option (List Char) × List Char) :=
  match cs with
  | '.' :: rest => (digitRun Char.isDigit rest).map fun (digits, rest) => (some digits, rest)
  | _ => some (none, cs)

def floatDigits? (negative : Bool) (cs : List Char) : Option (Value × List Char) := do
  let (whole, rest) ← wholeDigits cs
  let (places, rest) ← places? rest
  let (exponent, rest) ← exponent? rest
  guard (places.isSome || exponent.isSome)
  let behind := places.getD []
  let x := Binary64.ofDecimal negative (natOf 10 (whole ++ behind))
    (exponent.getD 0 - behind.length)
  guard (x ≠ .infinite false)
  return (.float x, rest)

def float? (cs : List Char) : Option (Value × List Char) :=
  let (negative, rest) := sign cs
  match rest with
  | 'i' :: 'n' :: 'f' :: rest => some (.float (.infinite negative), rest)
  | 'n' :: 'a' :: 'n' :: rest => some (.float .nan, rest)
  | _ => floatDigits? negative rest

/-! ## Dates and times -/

/-- A number of exactly `width` digits between two bounds. -/
def fixed (width low high : Nat) (cs : List Char) : Option (Nat × List Char) :=
  let digits := cs.take width
  let n := natOf 10 digits
  if digits.length == width && digits.all Char.isDigit && low ≤ n && n ≤ high then
    some (n, cs.drop width)
  else none

/-- The text behind a character. -/
def expect (c : Char) : List Char → Option (List Char)
  | d :: rest => if c == d then some rest else none
  | [] => none

def daysIn (year month : Nat) : Nat :=
  if month == 2 then
    if year % 4 == 0 && (year % 100 != 0 || year % 400 == 0) then 29 else 28
  else if [4, 6, 9, 11].contains month then 30
  else 31

/-- The text behind a date. -/
def date? (cs : List Char) : Option (List Char) := do
  let (year, rest) ← fixed 4 0 9999 cs
  let (month, rest) ← fixed 2 1 12 (← expect '-' rest)
  let (_, rest) ← fixed 2 1 (daysIn year month) (← expect '-' rest)
  return rest

/-- The text behind a time of day. -/
def time? (cs : List Char) : Option (List Char) := do
  let (_, rest) ← fixed 2 0 23 cs
  let (_, rest) ← fixed 2 0 59 (← expect ':' rest)
  let (_, rest) ← fixed 2 0 60 (← expect ':' rest)
  match rest with
  | '.' :: c :: more =>
    if c.isDigit then return more.dropWhile Char.isDigit else return rest
  | _ => return rest

/-- The text behind a distance from universal time, if one is written. -/
def offset? (cs : List Char) : Option (List Char) :=
  match cs with
  | [] => some []
  | c :: rest =>
    if c == 'Z' || c == 'z' then some rest
    else if c == '+' || c == '-' then do
      let (_, rest) ← fixed 2 0 23 rest
      let (_, rest) ← fixed 2 0 59 (← expect ':' rest)
      return rest
    else some cs

/-- A date, a time, or a date with a time. -/
def datetime? (cs : List Char) : Option (Value × List Char) :=
  match date? cs with
  | none => (time? cs).map fun rest => (.datetime, rest)
  | some rest =>
    match rest with
    | c :: behind =>
      if ['T', 't', ' '].contains c then
        match time? behind with
        | some rest => (offset? rest).map fun rest => (.datetime, rest)
        | none => some (.datetime, rest)
      else some (.datetime, rest)
    | [] => some (.datetime, rest)

/-! ## Values -/

/-- The first reading that succeeds. -/
def orElse {α : Type} (first : Option (α × List Char))
    (second : Unit → Option (α × List Char)) : Option (α × List Char) :=
  match first with
  | some found => some found
  | none => second ()

/-- The items of an array behind its bracket, and the text behind the closing
one; `fuel` bounds their number. -/
def arrayItems (value : List Char → Option (Value × List Char)) :
    Nat → List Char → Option (List Value × List Char)
  | 0, _ => none
  | fuel + 1, cs =>
    match skipLines cs.length cs with
    | ']' :: rest => some ([], rest)
    | cs => do
      let (item, rest) ← value cs
      match skipLines rest.length rest with
      | ',' :: rest => (arrayItems value fuel rest).map fun (items, rest) => (item :: items, rest)
      | ']' :: rest => some ([item], rest)
      | _ => none

/-- The entries of an inline table from its first key on, and the text behind the
closing brace; `fuel` bounds their number. -/
def inlineEntries (value : List Char → Option (Value × List Char)) :
    Nat → Entries → List Char → Option (Entries × List Char)
  | 0, _, _ => none
  | fuel + 1, es, cs => do
    let ((path, key), rest) ← key? cs
    let (v, rest) ← value (skipGap (← expect '=' rest))
    let es ← Entries.addValue path key v .header es
    match skipGap rest with
    | ',' :: rest => inlineEntries value fuel es rest
    | '\x7d' :: rest => some (es, rest)
    | _ => none

/-- An inline table behind its brace. -/
def inlineTable (value : List Char → Option (Value × List Char)) (cs : List Char) :
    Option (Value × List Char) :=
  match skipGap cs with
  | '\x7d' :: rest => some (.table [], rest)
  | cs =>
    (inlineEntries value cs.length [] cs).map fun (es, rest) =>
      (.table (Item.entriesToValues es), rest)

/-- A word that stands for a value. -/
def word (text : String) (v : Value) (cs : List Char) : Option (Value × List Char) :=
  if text.toList.isPrefixOf cs then some (v, cs.drop text.length) else none

/-- A value; `depth` bounds how deep values are nested in it. -/
def value? : Nat → List Char → Option (Value × List Char)
  | _, [] => none
  | 0, _ => none
  | depth + 1, c :: rest =>
    let cs := c :: rest
    if c == '\x22' || c == '\x27' then (string? cs).map fun (s, rest) => (.string s, rest)
    else if c == '[' then
      if depth = 0 then none
      else (arrayItems (value? depth) cs.length rest).map fun (vs, rest) => (.array vs, rest)
    else if c == '\x7b' then if depth = 0 then none else inlineTable (value? depth) rest
    else if c == 't' then word "true" (.boolean true) cs
    else if c == 'f' then word "false" (.boolean false) cs
    else orElse (datetime? cs) fun _ => orElse (float? cs) fun _ => integer? cs

end CSharpKit.Toml
