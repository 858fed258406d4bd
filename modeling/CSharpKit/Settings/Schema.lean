import CSharpKit.Settings.Load
import CSharpKit.Text.JsonValue

/-! # Settings as JSON

The JSON form of settings, and the schema with which editors check their files.
The default values in the schema are those of the settings themselves. -/

namespace CSharpKit.Settings

open Text

/-- The fields of a section in their JSON form. -/
def fields (s : Settings) : Section → List (String × JsonValue)
  | .logging => [("level", .string s.logging.level), ("json", .boolean s.logging.json),
      ("file", .ofOption .string s.logging.file?)]
  | .refactor => [("create_custom_delegate", .boolean s.refactor.createCustomDelegate)]
  | .diagnostics =>
    [("immutable_array_creation", .string s.diagnostics.immutableArrayCreation.name)]
  | .quickInfo => [("sum_types", .boolean s.quickInfo.sumTypes)]

def toJson (s : Settings) : JsonValue :=
  .object (Section.all.map fun part => (part.key, .object (s.fields part)))

def Findings.toJson (f : Findings) : JsonValue :=
  .object [("empty", .boolean f.isEmpty), ("unknown_keys", .ofStrings f.unknownKeys),
    ("warnings", .ofStrings f.warnings)]

namespace Schema

/-- The type of a field. -/
inductive FieldType where
  | text
  | optionalText
  | flag
  | level
  deriving DecidableEq

/-- What stands in the schema about a field. -/
structure Field where
  key : String
  type : FieldType
  description : String

def fields : Section → List Field
  | .logging => [
      ⟨"level", .text, "A level (`info`, `debug`, ...) or a full `EnvFilter` directive string."⟩,
      ⟨"json", .flag, "Emit logs as JSON lines."⟩,
      ⟨"file", .optionalText,
        "Append logs to this file in addition to stderr. Ignored when it cannot be opened."⟩]
  | .refactor => [⟨"create_custom_delegate", .flag,
      "Offer \"Create Custom Delegate\" on `Action<...>` / `Func<...>` parameters."⟩]
  | .diagnostics => [⟨"immutable_array_creation", .level,
      "`ImmutableArray<T>.Empty.Add(x)` analyzer."⟩]
  | .quickInfo => [⟨"sum_types", .flag, "List the cases of closed class hierarchies on hover."⟩]

/-- The name under which report levels are defined. -/
def levelTitle : String := "DiagnosticLevel"

/-- A reference to one of the definitions. -/
def reference (title : String) : String × JsonValue :=
  ("allOf", .array [.object [("$ref", .string ("#/definitions/" ++ title))]])

def FieldType.json : FieldType → String × JsonValue
  | .text => ("type", .string "string")
  | .optionalText => ("type", .ofStrings ["string", "null"])
  | .flag => ("type", .string "boolean")
  | .level => reference levelTitle

def fieldJson (part : Section) (f : Field) : String × JsonValue :=
  let value := (({} : Settings).fields part).lookup f.key
  (f.key, .object [("description", .string f.description), ("default", value.getD .null),
    f.type.json])

/-- An object with these properties and no others. -/
def objectOf (properties : List (String × JsonValue)) : List (String × JsonValue) :=
  [("type", .string "object"), ("properties", .object properties),
    ("additionalProperties", .boolean false)]

def sectionJson (part : Section) : String × JsonValue :=
  (part.title, .object (objectOf ((fields part).map (fieldJson part))))

def levelJson : String × JsonValue :=
  (levelTitle, .object [("description", .string "Reporting level of one analyzer."),
    ("type", .string "string"), ("enum", .ofStrings (ReportLevel.all.map (·.name)))])

/-- The schema of files of settings. -/
def json : JsonValue :=
  let properties := Section.all.map fun part =>
    (part.key, JsonValue.object [("default", .object (({} : Settings).fields part)),
      reference part.title])
  .object ([("$schema", .string "http://json-schema.org/draft-07/schema#"),
    ("title", .string "SableConfig")] ++ objectOf properties ++
    [("definitions", .object (Section.all.map sectionJson ++ [levelJson]))])

end Schema

end CSharpKit.Settings
