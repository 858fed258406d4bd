import CSharpKit.Text.Span

/-! # Lines

Where the lines of a text start. A line ends at `\n`, at `\r\n`, or at an `\r`
alone. Lines and columns count from zero, columns in bytes. -/

namespace CSharpKit.Text

/-- A place in a text by its line and column. -/
structure LineCol where
  line : Nat
  col : Nat
  deriving DecidableEq, Inhabited

/-- A column so large that it leads to no position at all. -/
inductive PlaceFault where
  | overflow
  deriving DecidableEq

/-- Positions are numbers of 32 bits, so they are below this. -/
def positionLimit : Nat := 4294967296

/-- The positions where the lines of a text start, and the length of the text. -/
structure Lines where
  starts : List Nat
  length : Nat
  deriving DecidableEq, Inhabited

namespace Lines

/-- The starts of the lines behind the first one, in a text at position `pos`. -/
def laterStarts (pos : Nat) : List Char → List Nat
  | [] => []
  | '\r' :: '\n' :: rest => (pos + 2) :: laterStarts (pos + 2) rest
  | c :: rest =>
    if c == '\n' || c == '\r' then (pos + 1) :: laterStarts (pos + 1) rest
    else laterStarts (pos + c.utf8Size) rest

def ofText (text : String) : Lines := ⟨0 :: laterStarts 0 text.toList, text.utf8ByteSize⟩

def count (lines : Lines) : Nat := lines.starts.length

def start? (lines : Lines) (line : Nat) : Option Nat := lines.starts[line]?

/-- The line and column of a position; a position behind the end counts as the end. -/
def lineCol (lines : Lines) (pos : Nat) : LineCol :=
  let pos := min pos lines.length
  let line := (lines.starts.takeWhile (· ≤ pos)).length - 1
  ⟨line, pos - (lines.start? line).getD 0⟩

/-- The position of a line and column; `none` if the line ends before it. No
position is asked for that would not fit 32 bits. -/
def position? (lines : Lines) (place : LineCol) : Except PlaceFault (Option Nat) :=
  match lines.start? place.line with
  | none => .ok none
  | some start =>
    let limit := (lines.start? (place.line + 1)).getD lines.length
    let pos := start + place.col
    if positionLimit ≤ pos then .error .overflow
    else .ok (if pos ≤ limit then some pos else none)

/-- The two ends of a span. -/
def ends (lines : Lines) (span : Span) : LineCol × LineCol :=
  (lines.lineCol span.start, lines.lineCol span.stop)

end Lines

end CSharpKit.Text
