import CSharpKit.Settings.LogFilter
import CSharpKit.Text.Quoted
import CSharpKit.Toml.Document

/-! # Reading settings

Settings are read from a TOML document, key by key in the order of the document.
The first value that does not fit its key ends the reading; keys that mean
nothing are only reported. -/

namespace CSharpKit.Settings

open Text Toml

/-- What a value has to be. -/
inductive Wanted where
  | boolean
  | string
  | path
  | table (s : Section)
  deriving DecidableEq

def Wanted.name : Wanted → String
  | .boolean => "a boolean"
  | .string => "a string"
  | .path => "path string"
  | .table s => "struct " ++ s.title

inductive LoadError where
  /-- There is no such file. -/
  | unreadable
  /-- The text is not TOML. -/
  | malformed
  | wrongType (found : Value) (wanted : Wanted)
  | unknownLevel (name : String)
  /-- A report level that is neither a string nor a table. -/
  | levelNotNamed
  /-- A report level that is an empty table. -/
  | levelWithoutName
  /-- A report level that is a table with several keys. -/
  | levelWithNames
  /-- A report level that is given as a key with contents. -/
  | levelWithContents (found : Value)

namespace LoadError

/-- A value as a message names it. -/
def found : Value → String
  | .boolean b => "boolean `" ++ (if b then "true" else "false") ++ "`"
  | .integer n => "integer `" ++ toString n ++ "`"
  | .float x => "floating point `" ++ x.render ++ "`"
  | .string s => "string " ++ quoted s
  | .datetime => "map"
  | .array _ | .tables _ => "sequence"
  | .table _ => "map"

/-- What is wrong with the contents of a report level. -/
def contents : Value → String
  | .tables _ => "expected empty array"
  | .array _ | .table _ => "expected empty table"
  | .boolean _ => "expected table, found boolean"
  | .integer _ => "expected table, found integer"
  | .float _ => "expected table, found float"
  | .string _ => "expected table, found string"
  | .datetime => "expected table, found datetime"

/-- The text of an error, except where only the fact is reported. -/
def detail? : LoadError → Option String
  | .unreadable | .malformed => none
  | .wrongType v wanted => some ("invalid type: " ++ found v ++ ", expected " ++ wanted.name)
  | .unknownLevel name =>
    let known := ReportLevel.all.map fun l => "`" ++ l.name ++ "`"
    some ("unknown variant `" ++ name ++ "`, expected one of " ++ ", ".intercalate known)
  | .levelNotNamed => some "wanted string or table"
  | .levelWithoutName => some "wanted exactly 1 element, found 0 elements"
  | .levelWithNames => some "wanted exactly 1 element, more than 1 element"
  | .levelWithContents v => some (contents v)

def message? (e : LoadError) : Option String :=
  e.detail?.map ("failed to parse toml config: " ++ ·)

end LoadError

/-! ## Single values -/

def readBoolean : Value → Except LoadError Bool
  | .boolean b => .ok b
  | v => .error (.wrongType v .boolean)

def readString : Value → Except LoadError String
  | .string s => .ok s
  | v => .error (.wrongType v .string)

def readPath : Value → Except LoadError String
  | .string s => .ok s
  | v => .error (.wrongType v .path)

def readLevelName (name : String) : Except LoadError ReportLevel :=
  match ReportLevel.ofName? name with
  | some level => .ok level
  | none => .error (.unknownLevel name)

/-- A report level is a string, or a table with the level as its only key and
nothing under it. -/
def readLevel : Value → Except LoadError ReportLevel
  | .string name => readLevelName name
  | .table [] => .error .levelWithoutName
  | .table [(name, .table [])] => readLevelName name
  | .table [(name, .array [])] => readLevelName name
  | .table [(name, v)] => do
    let _ ← readLevelName name
    .error (.levelWithContents v)
  | .table _ => .error .levelWithNames
  | _ => .error .levelNotNamed

/-! ## Tables -/

/-- The keys that lead to a value. -/
abbrev KeyPath := List String

/-- A key of a table: what a value under it does to the settings, and which keys in
the value mean nothing. -/
structure Key (α : Type) where
  name : String
  read : Value → α → Except LoadError (α × List KeyPath)

/-- A key with a single value. -/
def Key.ofValue {α β : Type} (name : String) (read : Value → Except LoadError β)
    (set : β → α → α) : Key α :=
  ⟨name, fun v a => (read v).map fun b => (set b a, [])⟩

variable {α : Type}

/-- Reads the entries of a table in their order. -/
def readEntries (keys : List (Key α)) :
    List (String × Value) → α → Except LoadError (α × List KeyPath)
  | [], a => .ok (a, [])
  | (name, v) :: rest, a => do
    match keys.find? fun key => key.name == name with
    | none =>
      let (a, unknown) ← readEntries keys rest a
      return (a, [name] :: unknown)
    | some key =>
      let (a, inside) ← key.read v a
      let (a, unknown) ← readEntries keys rest a
      return (a, inside.map (name :: ·) ++ unknown)

/-- Reads the items of an array as values of the keys in their order. Items behind
the last key are not looked at. -/
def readItems : List (Key α) → List Value → α → Except LoadError (α × List KeyPath)
  | key :: keys, v :: rest, a => do
    let (a, inside) ← key.read v a
    let (a, unknown) ← readItems keys rest a
    return (a, inside ++ unknown)
  | _, _, a => .ok (a, [])

/-- The one key of a date when it is taken for a table. -/
def datetimeKey : String := "$__toml_private_datetime"

/-- Reads a table of settings, which can also be written as an array. -/
def readTable (s : Section) (keys : List (Key α)) (v : Value) (a : α) :
    Except LoadError (α × List KeyPath) :=
  match v with
  | .table entries => readEntries keys entries a
  | .array items => readItems keys items a
  | .tables rows => readItems keys (rows.map .table) a
  | .datetime => readEntries keys [(datetimeKey, v)] a
  | v => .error (.wrongType v (.table s))

def loggingKeys : List (Key LoggingSettings) := [
  .ofValue "level" readString fun level s => { s with level },
  .ofValue "json" readBoolean fun json s => { s with json },
  .ofValue "file" readPath fun file s => { s with file? := some file }]

def refactorKeys : List (Key RefactorSettings) := [
  .ofValue "create_custom_delegate" readBoolean fun on s => { s with createCustomDelegate := on }]

def diagnosticsKeys : List (Key DiagnosticsSettings) := [
  .ofValue "immutable_array_creation" readLevel fun level s =>
    { s with immutableArrayCreation := level }]

def quickInfoKeys : List (Key QuickInfoSettings) := [
  .ofValue "sum_types" readBoolean fun on s => { s with sumTypes := on }]

/-- A key with a table of settings. -/
def Key.ofTable {β : Type} (s : Section) (keys : List (Key β)) (get : α → β) (set : β → α → α) :
    Key α :=
  ⟨s.key, fun v a => (readTable s keys v (get a)).map fun (b, unknown) => (set b a, unknown)⟩

def settingsKeys : List (Key Settings) := [
  .ofTable .logging loggingKeys (·.logging) fun logging s => { s with logging },
  .ofTable .refactor refactorKeys (·.refactor) fun refactor s => { s with refactor },
  .ofTable .diagnostics diagnosticsKeys (·.diagnostics) fun diagnostics s => { s with diagnostics },
  .ofTable .quickInfo quickInfoKeys (·.quickInfo) fun quickInfo s => { s with quickInfo }]

/-! ## Documents -/

/-- A path of keys with dots between them and none in front. -/
def dotted (path : KeyPath) : String :=
  String.ofList ((".".intercalate path).toList.dropWhile (· == '.'))

/-- Texts in order, each once. -/
def sortedDistinct (texts : List String) : List String :=
  (texts.eraseDups).mergeSort fun a b => !(b < a)

/-- Settings with the keys of their text that mean nothing, as dotted paths in
order. -/
structure Loaded where
  settings : Settings
  unknownKeys : List String
  deriving Inhabited

/-- What is to be reported about the text of settings. -/
structure Findings where
  unknownKeys : List String
  warnings : List String
  deriving DecidableEq, Inhabited

def Findings.isEmpty (f : Findings) : Bool := f.unknownKeys.isEmpty && f.warnings.isEmpty

namespace Loaded

/-- The settings that hold without a text. -/
def default : Loaded := ⟨{}, []⟩

/-- A level that is no filter is reported. -/
def warnings (l : Loaded) : Except FilterFault (List String) :=
  match LogFilter.parse l.settings.logging.directives with
  | .ok _ => .ok []
  | .error .invalid =>
    .ok ["LoggingLevelInvalid \x7b value: " ++ quoted l.settings.logging.level ++ " \x7d"]
  | .error fault => .error fault

def findings (l : Loaded) : Except FilterFault Findings := l.warnings.map (⟨l.unknownKeys, ·⟩)

end Loaded

/-- Reads settings from a text. -/
def load (text : String) : Except LoadError Loaded :=
  match Toml.parse text with
  | none => .error .malformed
  | some entries =>
    (readEntries settingsKeys entries {}).map fun (settings, unknown) =>
      ⟨settings, sortedDistinct (unknown.map dotted)⟩

end CSharpKit.Settings
