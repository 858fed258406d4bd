/-! # Searching and cutting texts

Where one text occurs in another, and what lies between two positions. -/

namespace CSharpKit.Text

/-- Whether a pattern occurs in a text. -/
def occursIn (pattern : List Char) : List Char → Bool
  | [] => pattern.isEmpty
  | c :: rest => pattern.isPrefixOf (c :: rest) || occursIn pattern rest

/-- The number of bytes of characters in a row. -/
def byteLength : List Char → Nat
  | [] => 0
  | c :: rest => c.utf8Size + byteLength rest

/-- The characters before and behind a position; `none` if it lies inside a
character or behind the end. -/
def splitAt? : Nat → List Char → Option (List Char × List Char)
  | 0, cs => some ([], cs)
  | _ + 1, [] => none
  | pos + 1, c :: rest =>
    if c.utf8Size ≤ pos + 1 then
      (splitAt? (pos + 1 - c.utf8Size) rest).map fun (before, after) => (c :: before, after)
    else none

/-- The characters between two positions; `none` if one of them does not lie
between characters. -/
def slice? (start stop : Nat) (cs : List Char) : Option (List Char) := do
  let (_, behind) ← splitAt? start cs
  let (inside, _) ← splitAt? (stop - start) behind
  return inside

/-- The characters of a text that lie before a position. -/
def charsBefore (pos : Nat) : List Char → List Char
  | [] => []
  | c :: rest => if c.utf8Size ≤ pos then c :: charsBefore (pos - c.utf8Size) rest else []

/-- The text before a position. -/
def textBefore (pos : Nat) (text : String) : String := String.ofList (charsBefore pos text.toList)

end CSharpKit.Text
