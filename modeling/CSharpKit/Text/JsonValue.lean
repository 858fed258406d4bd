/-! # JSON values

Values of JSON without numbers, and their text. -/

namespace CSharpKit.Text

inductive JsonValue where
  | null
  | boolean (b : Bool)
  | string (s : String)
  | array (items : List JsonValue)
  | object (fields : List (String × JsonValue))
  deriving Inhabited

namespace JsonValue

/-- A character as it stands in a string; controls are written by their code. -/
def escapeChar (c : Char) : List Char :=
  if c == '\x22' || c == '\\' then ['\\', c]
  else if c.toNat < 0x20 then
    let digits := Nat.toDigits 16 c.toNat
    "\\u".toList ++ List.replicate (4 - digits.length) '0' ++ digits
  else [c]

def renderString (s : String) : String :=
  String.ofList ('\x22' :: s.toList.flatMap escapeChar ++ ['\x22'])

mutual

/-- The text of a value, without blanks between its parts. -/
def render : JsonValue → String
  | .null => "null"
  | .boolean b => if b then "true" else "false"
  | .string s => renderString s
  | .array items => "[" ++ ",".intercalate (renderItems items) ++ "]"
  | .object fields => "\x7b" ++ ",".intercalate (renderFields fields) ++ "\x7d"

def renderItems : List JsonValue → List String
  | [] => []
  | item :: rest => render item :: renderItems rest

def renderFields : List (String × JsonValue) → List String
  | [] => []
  | (key, v) :: rest => (renderString key ++ ":" ++ render v) :: renderFields rest

end

/-- A value that may be missing. -/
def ofOption {α : Type} (f : α → JsonValue) : Option α → JsonValue
  | some a => f a
  | none => .null

def ofStrings (texts : List String) : JsonValue := .array (texts.map .string)

end JsonValue

end CSharpKit.Text
