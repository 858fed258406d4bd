/-! # Settings

What a workspace can switch on and off, with the values that hold if its file
says nothing. -/

namespace CSharpKit.Settings

/-- How an analyzer reports. -/
inductive ReportLevel where
  | error
  | warning
  | off
  deriving DecidableEq, Inhabited

namespace ReportLevel

def name : ReportLevel → String
  | .error => "error"
  | .warning => "warning"
  | .off => "off"

def all : List ReportLevel := [.error, .warning, .off]

def ofName? (name : String) : Option ReportLevel := all.find? fun l => l.name == name

def isEnabled (l : ReportLevel) : Bool := l != .off

end ReportLevel

/-- The parts of the settings, each a table of its own in a file. -/
inductive Section where
  | logging
  | refactor
  | diagnostics
  | quickInfo
  deriving DecidableEq, Inhabited

namespace Section

def all : List Section := [.logging, .refactor, .diagnostics, .quickInfo]

/-- The key of the table. -/
def key : Section → String
  | .logging => "logging"
  | .refactor => "refactor"
  | .diagnostics => "diagnostics"
  | .quickInfo => "quick_info"

/-- What messages and the schema call the table. -/
def title : Section → String
  | .logging => "LoggingConfig"
  | .refactor => "RefactorConfig"
  | .diagnostics => "DiagnosticsConfig"
  | .quickInfo => "QuickInfoConfig"

end Section

structure LoggingSettings where
  /-- A level, or directives for single targets. -/
  level : String := "info"
  json : Bool := false
  file? : Option String := none
  deriving DecidableEq, Inhabited

structure RefactorSettings where
  createCustomDelegate : Bool := true
  deriving DecidableEq, Inhabited

structure DiagnosticsSettings where
  immutableArrayCreation : ReportLevel := .error
  deriving DecidableEq, Inhabited

structure QuickInfoSettings where
  sumTypes : Bool := true
  deriving DecidableEq, Inhabited

end CSharpKit.Settings

namespace CSharpKit

structure Settings where
  logging : Settings.LoggingSettings := {}
  refactor : Settings.RefactorSettings := {}
  diagnostics : Settings.DiagnosticsSettings := {}
  quickInfo : Settings.QuickInfoSettings := {}
  deriving DecidableEq, Inhabited

end CSharpKit
