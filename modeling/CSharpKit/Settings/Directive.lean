import CSharpKit.Number.Binary64
import CSharpKit.Text.Pattern
import CSharpKit.Text.Search

/-! # Log directives

A directive gives a level to a part of the log: to the targets whose names begin
alike, to a span with a name, to what has a field, or to all the rest. It is
written `target[span{field=value}]=level`, where each part may be missing. -/

namespace CSharpKit.Settings

open Number Text

inductive LogLevel where
  | off
  | error
  | warn
  | info
  | debug
  | trace
  deriving DecidableEq, Inhabited

namespace LogLevel

def name : LogLevel → String
  | .off => "off"
  | .error => "error"
  | .warn => "warn"
  | .info => "info"
  | .debug => "debug"
  | .trace => "trace"

/-- The levels; each can also be given by its place in this list. -/
def all : List LogLevel := [.off, .error, .warn, .info, .debug, .trace]

/-- The level that a text names in any case, or gives by its number. -/
def ofText? (text : String) : Option LogLevel :=
  ((natural? text).bind (all[·]?)).or (all.find? fun l => l.name == text.toLower)

end LogLevel

/-- An order from the answers to both questions. -/
def ordering (before after : Bool) : Ordering :=
  if before then .lt else if after then .gt else .eq

/-- Nothing comes before something. -/
def orderOptions {α : Type} (order : α → α → Ordering) : Option α → Option α → Ordering
  | none, none => .eq
  | none, some _ => .lt
  | some _, none => .gt
  | some a, some b => order a b

def orderTexts (a b : String) : Ordering := ordering (a < b) (b < a)

def orderNumbers (a b : Nat) : Ordering := ordering (a < b) (b < a)

/-! ## Fields -/

/-- The value that a field has to have. -/
inductive FieldValue where
  | boolean (b : Bool)
  | number (x : Binary64)
  | natural (n : Nat)
  | integer (n : Int)
  | pattern (text : String)
  deriving DecidableEq, Inhabited

namespace FieldValue

/-- The first form in which a text can be read; `none` if it is not even a
pattern. Whole numbers have 64 bits. -/
def ofText? (text : String) : Option FieldValue :=
  if text == "true" then some (.boolean true)
  else if text == "false" then some (.boolean false)
  else (whole? text).or (((Binary64.ofText? text).map .number).or
    (if isPattern text then some (.pattern text) else none))
where
  whole? (text : String) : Option FieldValue :=
    match text.toList with
    | '-' :: digits =>
      let n := decimal digits
      if !digits.isEmpty && digits.all Char.isDigit && n ≤ 9223372036854775808 then
        some (.integer (-(n : Int)))
      else none
    | _ => ((natural? text).filter (· < 18446744073709551616)).map .natural

def text : FieldValue → String
  | .boolean b => if b then "true" else "false"
  | .number x => x.text
  | .natural n => toString n
  | .integer n => toString n
  | .pattern text => text

/-- The place of the forms in the order of values. -/
def rank : FieldValue → Nat
  | .boolean _ => 0
  | .number .nan => 2
  | .number _ => 1
  | .natural _ => 3
  | .integer _ => 4
  | .pattern _ => 5

def order (a b : FieldValue) : Ordering :=
  (orderNumbers a.rank b.rank).then <|
    match a, b with
    | .boolean a, .boolean b => ordering (!a && b) (a && !b)
    | .number a, .number b => ordering (a.scaled < b.scaled) (b.scaled < a.scaled)
    | .natural a, .natural b => orderNumbers a b
    | .integer a, .integer b => ordering (a < b) (b < a)
    | .pattern a, .pattern b => orderTexts a b
    | _, _ => .eq

end FieldValue

/-- A field of a span by its name, with the value it has to have or with any. -/
structure SpanField where
  name : String
  value? : Option FieldValue
  deriving DecidableEq, Inhabited

namespace SpanField

/-- Reads a field; `none` if its value cannot be read. -/
def ofText? (text : String) : Option SpanField :=
  match text.splitOn "=" with
  | name :: value :: _ => (FieldValue.ofText? value).map fun v => ⟨name, some v⟩
  | name :: _ => some ⟨name, none⟩
  | [] => none

def text (f : SpanField) : String :=
  match f.value? with
  | some v => f.name ++ "=" ++ v.text
  | none => f.name

def order (a b : SpanField) : Ordering :=
  (ordering (a.value?.isNone && b.value?.isSome) (a.value?.isSome && b.value?.isNone)).then
    ((orderTexts a.name b.name).then (orderOptions FieldValue.order a.value? b.value?))

end SpanField

/-! ## Directives -/

/-- What is wrong with the text of a filter. -/
inductive FilterFault where
  | invalid
  /-- A part would be cut off inside a character. -/
  | splitCharacter
  deriving DecidableEq, Inhabited

structure Directive where
  target? : Option String
  span? : Option String
  field? : Option SpanField
  level : LogLevel
  deriving DecidableEq, Inhabited

namespace Directive

def ofLevel (level : LogLevel) : Directive := ⟨none, none, none, level⟩

/-- Whether it takes more than a target to tell where a directive holds. -/
def isNarrow (d : Directive) : Bool := d.span?.isSome || d.field?.isSome

/-- Whether a directive can be checked without a look at spans and values. -/
def isStatic (d : Directive) : Bool := d.span?.isNone && !d.field?.any (·.value?.isSome)

def text (d : Directive) : String :=
  let fields := (d.field?.map fun f => "\x7b" ++ f.text ++ "\x7d").getD ""
  let bracket := if d.isNarrow then "[" ++ d.span?.getD "" ++ fields ++ "]" else ""
  if d.target?.isSome || d.isNarrow then d.target?.getD "" ++ bracket ++ "=" ++ d.level.name
  else d.level.name

/-- How specific directives are: by the length of the target, then by a span, then
by a field. Those that are equally specific are told apart by their texts. -/
def order (a b : Directive) : Ordering :=
  let length (d : Directive) : Option Nat := d.target?.map (·.utf8ByteSize)
  (orderOptions orderNumbers (length a) (length b)).then <|
  (ordering (a.span?.isNone && b.span?.isSome) (a.span?.isSome && b.span?.isNone)).then <|
  (ordering (a.field?.isNone && b.field?.isSome) (a.field?.isSome && b.field?.isNone)).then <|
  (orderOptions orderTexts a.target? b.target?).then <|
  (orderOptions orderTexts a.span? b.span?).then <|
  orderOptions SpanField.order a.field? b.field?

/-! ## Reading

The parts of a directive are found in the text without the blanks at its ends,
and cut at these positions from the text with them. So blanks in front move all
parts, which only a lone target or span survives. -/

/-- The part of a text between two positions. -/
def cut (text : List Char) (start stop : Nat) : Except FilterFault String :=
  match slice? start stop text with
  | some cs => .ok (String.ofList cs)
  | none => .error .splitCharacter

def orInvalid {α : Type} : Option α → Except FilterFault α
  | some a => .ok a
  | none => .error .invalid

/-- The level behind a `=`; nothing stands for all levels. -/
def readLevel (text : List Char) (start : Nat) : Except FilterFault LogLevel := do
  let name ← cut text start (byteLength text)
  if name.isEmpty then return .trace else orInvalid (LogLevel.ofText? name)

/-- The name of a span and a field, behind the bracket before position `pos`, with
the position and the text behind the closing bracket. -/
def readBracket (text : List Char) (pos : Nat) (cs : List Char) :
    Except FilterFault (Option String × Option SpanField × Nat × List Char) := do
  let name := cs.takeWhile fun c => c != ']' && c != '\x7b'
  let stop := pos + byteLength name
  match cs.drop name.length with
  | ']' :: rest => return (some (← cut text pos stop), none, stop + 1, rest)
  | _ :: rest =>
    let span ← cut text pos stop
    let inside := rest.takeWhile (· != '\x7d')
    let last := stop + 1 + byteLength inside
    match rest.drop inside.length with
    | [] => .error .invalid
    | _ :: behind =>
      let field ← cut text (stop + 1) last
      let field ← if field.isEmpty then .error .invalid else orInvalid (SpanField.ofText? field)
      match behind with
      | ']' :: rest => return (if span.isEmpty then none else some span, some field, last + 2, rest)
      | _ => .error .invalid
  | [] => .error .invalid

/-- A directive with brackets, read from the position behind the opening one. -/
def readNarrow (text : List Char) (target? : Option String) (pos : Nat) (cs : List Char) :
    Except FilterFault Directive := do
  let (span?, field?, pos, rest) ← readBracket text pos cs
  match rest with
  | [] => return ⟨target?, span?, field?, .trace⟩
  | '=' :: _ => return ⟨target?, span?, field?, ← readLevel text (pos + 1)⟩
  | _ => .error .invalid

/-- Whether a target can begin with a character. -/
def isStart (c : Char) : Bool := isAlphanumeric c || ['-', ':', '_'].contains c

/-- Reads a directive. Without brackets and `=` it is a level or else a target with
all levels. -/
def parse (directive : String) : Except FilterFault Directive := do
  let text := directive.toList
  match (trim directive).toList with
  | [] => .error .invalid
  | '[' :: rest => readNarrow text none 1 rest
  | c :: rest =>
    let name := (c :: rest).takeWhile fun c => c != '=' && c != '['
    let pos := byteLength name
    if !isStart c then .error .invalid
    else
      match (c :: rest).drop name.length with
      | [] =>
        match LogLevel.ofText? directive with
        | some level => return ofLevel level
        | none => return ⟨some directive, none, none, .trace⟩
      | '=' :: _ => return ⟨some (← cut text 0 pos), none, none, ← readLevel text (pos + 1)⟩
      | _ :: rest => readNarrow text (some (← cut text 0 pos)) (pos + 1) rest

end Directive

end CSharpKit.Settings
