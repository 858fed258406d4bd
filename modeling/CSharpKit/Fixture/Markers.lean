import CSharpKit.Number.Decimal
import CSharpKit.Text.Search
import CSharpKit.Text.Span

/-! # Markers

Places in a sample text are marked in the text itself: `$0`, `$1`, … mark a
position, and `[|` and `|]` stand around a selected range. Reading the marks
takes them out. -/

namespace CSharpKit.Fixture

open Number Text

/-- What is wrong with the marks of a text. -/
inductive MarkerFault where
  | missingRange
  | unclosedRange
  | numberTooLarge
  deriving DecidableEq

def MarkerFault.message : MarkerFault → String
  | .missingRange => "fixture missing [| ... |] markers"
  | .unclosedRange => "fixture missing |] marker"
  | .numberTooLarge => "marker id fits in u32: ParseIntError \x7b kind: PosOverflow \x7d"

/-- The text before and behind the first occurrence of a pattern. -/
def splitAtFirst? (pattern : List Char) : List Char → Option (List Char × List Char)
  | [] => if pattern.isEmpty then some ([], []) else none
  | c :: rest =>
    if pattern.isPrefixOf (c :: rest) then some ([], (c :: rest).drop pattern.length)
    else (splitAtFirst? pattern rest).map fun (before, after) => (c :: before, after)

/-- The text without the marks of its first range, and the range; `none` if no
range is marked. -/
def extractRange? (text : String) : Except MarkerFault (Option (String × Span)) :=
  match splitAtFirst? ['[', '|'] text.toList with
  | none => .ok none
  | some (before, rest) =>
    match splitAtFirst? ['|', ']'] rest with
    | none => .error .unclosedRange
    | some (inside, after) =>
      .ok (some (String.ofList (before ++ inside ++ after), ⟨byteLength before, byteLength inside⟩))

/-- Like `extractRange?`, where a range has to be marked. -/
def extractRange (text : String) : Except MarkerFault (String × Span) := do
  match ← extractRange? text with
  | some found => .ok found
  | none => .error .missingRange

/-- The largest number of a marker is below this. -/
def markerLimit : Nat := 4294967296

/-- The characters without markers, and the markers, each with its number and
its position; the characters start at position `pos`. -/
def stripFrom (pos : Nat) : List Char → List Char × List (Nat × Nat)
  | [] => ([], [])
  | c :: rest =>
    let digits := if c == '$' then rest.takeWhile Char.isDigit else []
    if digits.isEmpty then
      let (text, markers) := stripFrom (pos + c.utf8Size) rest
      (c :: text, markers)
    else
      let (text, markers) := stripFrom pos (rest.drop digits.length)
      (text, (decimal digits, pos) :: markers)
termination_by cs => cs.length
decreasing_by
  · simp
  · simp only [List.length_cons, List.length_drop]; omega

/-- The text without its markers, and the markers, each with its number and its
position. A `$` without digits is no marker. -/
def stripMarkers (text : String) : Except MarkerFault (String × List (Nat × Nat)) :=
  let (stripped, markers) := stripFrom 0 text.toList
  if markers.any fun (number, _) => markerLimit ≤ number then .error .numberTooLarge
  else .ok (String.ofList stripped, markers)

end CSharpKit.Fixture
