import CSharpKit.Settings.Basic
import CSharpKit.Settings.Directive

/-! # Log filters

A filter is a list of directives, the most specific one first. Directives about
spans and fields are kept apart from the others; one about the name of a field
alone belongs to both. -/

namespace CSharpKit.Settings

open Text

structure LogFilter where
  /-- What can be checked without a look at spans and values. -/
  statics : List Directive
  /-- What names a span or a field. -/
  narrow : List Directive
  deriving DecidableEq, Inhabited

namespace LogFilter

/-- Adds a directive in its place, where it replaces one for the same part of the
log. -/
def insert (ds : List Directive) (d : Directive) : List Directive :=
  let others := ds.filter fun other => other.order d != .eq
  let (before, after) := others.span fun other => other.order d == .gt
  before ++ d :: after

def ofDirectives (ds : List Directive) : LogFilter :=
  let (narrow, plain) := ds.partition Directive.isNarrow
  ⟨(plain ++ narrow.filter Directive.isStatic).foldl insert [], narrow.foldl insert []⟩

/-- A filter of one level for all targets. -/
def ofLevel (level : LogLevel) : LogFilter := ofDirectives [.ofLevel level]

/-- Reads directives with commas between them. -/
def parse (text : String) : Except FilterFault LogFilter :=
  (((text.splitOn ",").filter (!·.isEmpty)).mapM Directive.parse).map ofDirectives

def text (f : LogFilter) : String := ",".intercalate ((f.statics ++ f.narrow).map Directive.text)

/-- What was read, or another result if the text was not a filter. -/
def orElse (result other : Except FilterFault LogFilter) : Except FilterFault LogFilter :=
  match result with
  | .error .invalid => other
  | result => result

end LogFilter

namespace LoggingSettings

/-- The directives of the level: a level in any case is written small, `warning`
stands for `warn`, and nothing for the default. -/
def directives (s : LoggingSettings) : String :=
  let level := trim s.level
  let small := level.toLower
  if level.isEmpty then "info"
  else if small == "warning" then "warn"
  else if ["trace", "debug", "info", "warn", "error"].contains small then small
  else level

/-- The filter of the level alone. -/
def ownFilter (s : LoggingSettings) : Except FilterFault LogFilter :=
  LogFilter.orElse (LogFilter.parse s.directives) (.ok (.ofLevel .info))

/-- The filter of the level with the directives that the environment adds. If both
cannot be read together, the environment's count, and then those of the level. -/
def filter (s : LoggingSettings) (environment : Option String) : Except FilterFault LogFilter :=
  match (environment.map trim).filter (!·.isEmpty) with
  | none => s.ownFilter
  | some added =>
    LogFilter.orElse (LogFilter.parse (s.directives ++ "," ++ added))
      (LogFilter.orElse (LogFilter.parse added) s.ownFilter)

end LoggingSettings

end CSharpKit.Settings
