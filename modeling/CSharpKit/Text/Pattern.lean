import CSharpKit.Text.CharClass

/-! # Patterns

Which texts are regular expressions that can be matched in one pass. Only the
form of a pattern is looked at. Matching has no tables of Unicode: classes of
letters, digits and blanks, the bounds of words and the cases of letters can be
asked for only where a pattern has turned to ASCII. A closing brace never occurs
in a pattern, so what would need one is not well formed. Nor is a pattern whose
parts nest too deep: every reader returns, with the text behind what it has read,
how deep that nests. -/

namespace CSharpKit.Text.Pattern

/-- What holds for the part of a pattern that is being read. -/
structure Modes where
  ignoreCase : Bool := false
  unicode : Bool := true
  /-- Blanks and comments stand for nothing. -/
  verbose : Bool := false

/-- Whether characters can be written: their other case is known in ASCII only. -/
def Modes.hasLetters (m : Modes) : Bool := !(m.ignoreCase && m.unicode)

/-- The text behind blanks and comments. -/
def dropComments (inComment : Bool) : List Char → List Char
  | [] => []
  | c :: rest =>
    if inComment then dropComments (c != '\n') rest
    else if isBlank c then dropComments false rest
    else if c == '#' then dropComments true rest
    else c :: rest

/-- The next part of a pattern. -/
def next (m : Modes) (cs : List Char) : List Char := if m.verbose then dropComments false cs else cs

/-- How deep parts nest that stand side by side: a single one needs nothing around
it. -/
def nesting : List Nat → Nat
  | [] => 0
  | [depth] => depth
  | depths => depths.foldl max 0 + 1

/-- The greatest depth of a pattern. -/
def depthLimit : Nat := 250

/-! ## Escapes -/

/-- What an escape stands for. -/
inductive Escaped where
  | literal (c : Char)
  /-- A class of characters, and whether all of them are in ASCII. -/
  | group (ascii : Bool)
  /-- A place between characters. -/
  | place

def hexDigit? (c : Char) : Option Nat :=
  if c.isDigit then some (c.toNat - 0x30)
  else if 'a' ≤ c && c ≤ 'f' then some (c.toNat - 0x57)
  else if 'A' ≤ c && c ≤ 'F' then some (c.toNat - 0x37)
  else none

/-- The number in so many hexadecimal digits. -/
def hexNumber? (m : Modes) : Nat → Nat → List Char → Option (Nat × List Char)
  | 0, n, cs => some (n, cs)
  | count + 1, n, cs =>
    match next m cs with
    | [] => none
    | c :: rest => (hexDigit? c).bind fun d => hexNumber? m count (16 * n + d) rest

/-- A character by its code. In ASCII mode a code of two digits is a byte, which
is no character by itself from 80 on. -/
def codeEscape? (m : Modes) (digits : Nat) (cs : List Char) : Option (Escaped × List Char) := do
  let (code, rest) ← hexNumber? m digits 0 cs
  if code.isValidChar && (m.unicode || digits != 2 || code < 0x80) then
    return (.literal (Char.ofNat code), rest)
  else none

/-- ASCII characters that stand for themselves behind a backslash. -/
def isEscapable (c : Char) : Bool :=
  c.toNat < 0x80 && !c.isAlphanum && c != '<' && c != '>'

/-- What an escape stands for, behind its backslash. -/
def escape? (m : Modes) : List Char → Option (Escaped × List Char)
  | [] => none
  | 'x' :: rest => codeEscape? m 2 rest
  | 'u' :: rest => codeEscape? m 4 rest
  | 'U' :: rest => codeEscape? m 8 rest
  | c :: rest =>
    if isEscapable c || ['a', 'f', 't', 'n', 'r', 'v'].contains c then some (.literal c, rest)
    else if ['A', 'z'].contains c then some (.place, rest)
    else if m.unicode then none
    else if ['b', 'B', '<', '>'].contains c then some (.place, rest)
    else if ['d', 's', 'w'].contains c then some (.group true, rest)
    else if ['D', 'S', 'W'].contains c then some (.group false, rest)
    else none

/-! ## Classes in brackets -/

def namedClasses : List String :=
  ["alnum", "alpha", "ascii", "blank", "cntrl", "digit", "graph", "lower", "print", "punct",
    "space", "upper", "word", "xdigit"]

/-- Reads a class such as `[:alpha:]`, whose bracket is read: whether it is negated,
and the text behind it. -/
def namedClass? : List Char → Option (Bool × List Char)
  | ':' :: cs =>
    let (negated, cs) :=
      match cs with
      | '^' :: rest => (true, rest)
      | cs => (false, cs)
    let name := cs.takeWhile (· != ':')
    match cs.drop name.length with
    | ':' :: ']' :: rest =>
      if namedClasses.contains (String.ofList name) then some (negated, rest) else none
    | _ => none
  | _ => none

/-- Dashes that open a class stand for themselves: their number, and the text
behind them. -/
def openingDashes (m : Modes) : Nat → List Char → Nat × List Char
  | 0, cs => (0, cs)
  | fuel + 1, cs =>
    match cs with
    | '-' :: rest =>
      let (count, rest) := openingDashes m fuel (next m rest)
      (count + 1, rest)
    | cs => (0, cs)

/-- The opening of a class, whose bracket is read: the depths of the characters that
stand for themselves there, and the text behind them. A closing bracket that comes
first is one of them. -/
def classOpening? (m : Modes) (cs : List Char) : Option (List Nat × List Char) :=
  let inside :=
    match next m cs with
    | '^' :: rest => if m.unicode then some (next m rest) else none
    | cs => some cs
  inside.map fun cs =>
    match cs with
    | ']' :: rest => ([0], rest)
    | cs =>
      let (count, rest) := openingDashes m cs.length cs
      (List.replicate count 0, rest)

/-- One character or class inside brackets. -/
def classAtom? (m : Modes) : List Char → Option (Escaped × List Char)
  | [] => none
  | '\\' :: rest => escape? m rest
  | c :: rest => some (.literal c, rest)

/-- Whether something can stand in a class. -/
def Escaped.fitsClass (m : Modes) : Escaped → Bool
  | .literal c => m.unicode || c.toNat < 0x80
  | .group ascii => ascii
  | .place => false

/-- The character behind a dash that tells whether the dash makes a range. Blanks
and the mark of a comment are passed over, but not the comment itself. -/
def behindDash? (m : Modes) (cs : List Char) : Option Char :=
  if !m.verbose then cs.head?
  else
    let shown :=
      match cs.dropWhile isBlank with
      | '#' :: rest => rest.dropWhile isBlank
      | rest => rest
    shown.head?.or cs.head?

/-- The text behind a character, a class or a range of characters. -/
def classRange? (m : Modes) (cs : List Char) : Option (List Char) := do
  let (first, rest) ← classAtom? m cs
  if !first.fitsClass m then none
  else
    match next m rest with
    | '-' :: behind =>
      if [some ']', some '-'].contains (behindDash? m behind) then return '-' :: behind
      match first, ← classAtom? m (next m behind) with
      | .literal low, (.literal high, rest) =>
        if low ≤ high && (Escaped.literal high).fitsClass m then some rest else none
      | _, _ => none
    | rest => some rest

/-- The depth of what is read of a class: behind an operator stands what came
before it. -/
def classDepth (left : Option Nat) (items : List Nat) : Nat :=
  match left with
  | none => nesting items
  | some left => max left (nesting items) + 1

/-- Reads up to the closing bracket of a class. `left` is the depth of what stands
before the last operator, and `items` are the depths of what stands behind it;
`fuel` bounds the length. -/
def classItems (m : Modes) : Nat → Option Nat → List Nat → List Char → Option (Nat × List Char)
  | 0, _, _, _ => none
  | fuel + 1, left, items, cs =>
    match next m cs with
    | [] => none
    | '[' :: rest =>
      match namedClass? rest with
      | some (negated, rest) =>
        if m.unicode || !negated then classItems m fuel left (0 :: items) rest else none
      | none => do
        let (opening, rest) ← classOpening? m rest
        let (depth, rest) ← classItems m fuel none opening rest
        classItems m fuel left ((depth + 1) :: items) rest
    | ']' :: rest => some (classDepth left items, rest)
    | '&' :: '&' :: rest | '-' :: '-' :: rest | '~' :: '~' :: rest =>
      classItems m fuel (some (classDepth left items)) [] rest
    | cs => (classRange? m cs).bind (classItems m fuel left (0 :: items))

/-! ## Groups -/

/-- Sets modes by their letters; behind a dash they are switched off. -/
def Modes.set (m : Modes) (on : Bool) : List Char → Modes
  | [] => m
  | c :: rest =>
    match c with
    | '-' => m.set false rest
    | 'i' => { m with ignoreCase := on }.set on rest
    | 'u' => { m with unicode := on }.set on rest
    | 'x' => { m with verbose := on }.set on rest
    | _ => m.set on rest

/-- Whether letters name modes: each one once, and not a dash at the end. -/
def areModes (letters : List Char) : Bool :=
  letters.all (['i', 'm', 's', 'U', 'u', 'R', 'x', '-'].contains ·) &&
    letters.eraseDups.length == letters.length && letters.getLast? != some '-'

/-- Whether a group can have a name. -/
def isGroupName : List Char → Bool
  | [] => false
  | c :: rest =>
    (c == '_' || isAlphabetic c) &&
      rest.all fun c => ['_', '.', '[', ']'].contains c || isAlphanumeric c

/-- How a group opens. -/
inductive Opening where
  | plain
  | named (name : List Char)
  /-- With modes for the group. -/
  | withModes (m : Modes)
  /-- No group: modes for what follows. -/
  | modes (m : Modes)

/-- The name of a group, up to its closing angle. -/
def groupName? (cs : List Char) : Option (Opening × List Char) :=
  let name := cs.takeWhile (· != '>')
  match cs.drop name.length with
  | '>' :: rest => if isGroupName name then some (.named name, rest) else none
  | _ => none

/-- How a group opens, behind its parenthesis. -/
def opening? (m : Modes) : List Char → Option (Opening × List Char)
  | '?' :: 'P' :: '<' :: rest => groupName? rest
  | '?' :: '<' :: rest => groupName? rest
  | '?' :: cs =>
    let letters := cs.takeWhile fun c => c != ':' && c != ')'
    if !areModes letters then none
    else
      match cs.drop letters.length with
      | ':' :: rest => some (.withModes (m.set true letters), rest)
      | ')' :: rest => if letters.isEmpty then none else some (.modes (m.set true letters), rest)
      | _ => none
  | cs => some (.plain, cs)

/-! ## Sequences -/

/-- What is read of a group. -/
structure Progress where
  /-- The depths of the alternatives before. -/
  branches : List Nat := []
  /-- The depths of the parts of this alternative, the last one first. -/
  items : List Nat := []
  /-- Whether the last part can be repeated. -/
  repeatable : Bool := false
  /-- The names of the groups so far; each is used once. -/
  names : List (List Char) := []

namespace Progress

def add (p : Progress) (depth : Nat) : Progress :=
  { p with items := depth :: p.items, repeatable := true }

/-- Begins another alternative. -/
def alternative (p : Progress) : Progress :=
  { p with branches := nesting p.items :: p.branches, items := [], repeatable := false }

/-- Repeats the last part. -/
def again? (p : Progress) : Option Progress :=
  match p.repeatable, p.items with
  | true, depth :: items => some { p with items := (depth + 1) :: items }
  | _, _ => none

def depth (p : Progress) : Nat := nesting (nesting p.items :: p.branches)

end Progress

/-- The text behind the mark that makes a repetition take as little as it can. -/
def dropLazy : List Char → List Char
  | '?' :: rest => rest
  | cs => cs

/-- Reads up to the end of a group; `fuel` bounds the length. -/
def sequence : Nat → Modes → Progress → List Char → Option (Progress × List Char)
  | 0, _, _, _ => none
  | fuel + 1, m, p, cs =>
    match next m cs with
    | [] => some (p, [])
    | ')' :: rest => some (p, ')' :: rest)
    | '|' :: rest => sequence fuel m p.alternative rest
    | '*' :: rest | '+' :: rest | '?' :: rest =>
      p.again?.bind fun p => sequence fuel m p (dropLazy rest)
    | '\x7b' :: _ => none
    | '^' :: rest | '$' :: rest => sequence fuel m (p.add 0) rest
    | '.' :: rest => if m.unicode then sequence fuel m (p.add 0) rest else none
    | '[' :: rest => do
      let (opening, rest) ← classOpening? m rest
      let (depth, rest) ← classItems m (rest.length + 1) none opening rest
      if m.hasLetters then sequence fuel m (p.add (depth + 1)) rest else none
    | '\\' :: rest =>
      match escape? m rest with
      | some (.literal _, rest) => if m.hasLetters then sequence fuel m (p.add 0) rest else none
      | some (.group ascii, rest) => if ascii then sequence fuel m (p.add 0) rest else none
      | some (.place, rest) => sequence fuel m (p.add 0) rest
      | none => none
    | '(' :: rest => do
      let (opening, rest) ← opening? m (next m rest)
      let group (inner : Modes) (names : List (List Char)) : Option (Progress × List Char) := do
        match ← sequence fuel inner { names } rest with
        | (inside, ')' :: rest) =>
          sequence fuel m { p.add (inside.depth + 1) with names := inside.names } rest
        | _ => none
      match opening with
      | .plain => group m p.names
      | .named name => if p.names.contains name then none else group m (name :: p.names)
      | .withModes inner => group inner p.names
      | .modes m => sequence fuel m { p.add 0 with repeatable := false } rest
    | _ :: rest => if m.hasLetters then sequence fuel m (p.add 0) rest else none

end Pattern

/-- Whether a text is a well-formed pattern. -/
def isPattern (text : String) : Bool :=
  match Pattern.sequence (text.length + 1) {} {} text.toList with
  | some (p, []) => p.depth ≤ Pattern.depthLimit
  | _ => false

end CSharpKit.Text
