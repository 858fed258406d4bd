import CSharpKit.Fixture.Markers
import CSharpKit.Text.CharClass
import CSharpKit.Workspace.Project

/-! # Samples

A sample is a project written as one text. A line that starts with two slashes
and a dash opens the document it names; marks in the documents are read and
taken out. -/

namespace CSharpKit.Fixture

open Text Workspace

/-- What is wrong with a sample, or with a question about it. -/
inductive SampleFault where
  | marks (fault : MarkerFault)
  | invalidDocument (name : String) (error : ProjectError)
  | mixedMarks (name : String)
  | secondRange
  | duplicateMarker (number : Nat) (firstDocument : DocumentId) (firstPos : Nat) (name : String)
      (pos : Nat)
  | noDocument (name : String)
  | noMarker (number : Nat)
  | noRange
  deriving DecidableEq

def SampleFault.message : SampleFault → String
  | .marks fault => fault.message
  | .invalidDocument name error => s!"invalid fixture document {name}: {error.message}"
  | .mixedMarks name => s!"document {name} mixes [| ... |] with $N markers"
  | .secondRange => "fixture has more than one [| ... |] range"
  | .duplicateMarker number doc first name pos =>
    s!"duplicate fixture marker ${number} (first at {showId doc}:{first}, again at {name}:{pos})"
  | .noDocument name => s!"no fixture document {name}"
  | .noMarker number => s!"fixture has no marker ${number}"
  | .noRange => "fixture has no [| ... |] range"

structure Marker where
  number : Nat
  document : DocumentId
  pos : Nat
  deriving DecidableEq

structure Sample where
  project : Project
  markers : List Marker
  range? : Option (DocumentId × Span)

/-- The lines of a text without their ends; the end of the last one may be missing. -/
def textLines (text : String) : List String :=
  let parts := text.splitOn "\n"
  let ended := parts.dropLast.map fun line =>
    if line.endsWith "\r" then (line.dropEnd 1).copy else line
  ended ++ (parts.getLast?.filter (!·.isEmpty)).toList

/-- The name in a header line: `/Class1.cs` stands for `Class1.cs`. -/
def headerName (header : String) : String :=
  let slashes := (trim header).toList.map fun c => if c == '\\' then '/' else c
  String.ofList (slashes.dropWhile (· == '/'))

/-- The name a header line opens, `none` for any other line. -/
def header? (line : String) : Option String :=
  if line.startsWith "//-" then some (headerName (line.drop 3).copy) else none

/-- Gathers the documents of lines: `text` is what was read for the open document. -/
def gather (opened : Option String) (text : String) : List String → List (String × String)
  | [] => (opened.map fun name => (name, text)).toList
  | line :: rest =>
    match header? line with
    | some name =>
      match opened with
      | some before => (before, text) :: gather (some name) "" rest
      | none => gather (some name) text rest
    | none => gather opened (if text.isEmpty then line else text ++ "\n" ++ line) rest

/-- The name of the document of a sample without headers. -/
def defaultName : String := "Test0.cs"

/-- The documents of a sample. -/
def splitDocuments (sample : String) : List (String × String) :=
  let lines := textLines sample
  if lines.any fun line => (header? line).isSome then gather none "" lines
  else [(defaultName, sample)]

namespace Sample

def empty : Sample := ⟨.empty, [], none⟩

def addMarker (name : String) (document : DocumentId) (sample : Sample) (mark : Nat × Nat) :
    Except SampleFault Sample :=
  match sample.markers.find? (·.number == mark.1) with
  | some first => .error (.duplicateMarker mark.1 first.document first.pos name mark.2)
  | none => .ok { sample with markers := sample.markers ++ [⟨mark.1, document, mark.2⟩] }

/-- Adds a marked document. A document with a range holds no other marks, and
only one document holds a range. -/
def addDocument (sample : Sample) (document : String × String) : Except SampleFault Sample := do
  let (name, marked) := document
  let selection ← (extractRange? marked).mapError .marks
  let text := (selection.map (·.1)).getD marked
  let (text, marks) ← (stripMarkers text).mapError .marks
  let (project, id) ← (sample.project.add name text).mapError (.invalidDocument name)
  let sample := { sample with project }
  let sample ←
    match selection with
    | none => .ok sample
    | some (_, span) =>
      if !marks.isEmpty then .error (.mixedMarks name)
      else if sample.range?.isSome then .error .secondRange
      else .ok { sample with range? := some (id, span) }
  marks.foldlM (addMarker name id) sample

/-- A sample of marked documents. -/
def ofDocuments (documents : List (String × String)) : Except SampleFault Sample :=
  documents.foldlM addDocument empty

/-- Reads a sample. -/
def ofText (text : String) : Except SampleFault Sample := ofDocuments (splitDocuments text)

def document (sample : Sample) (name : String) : Except SampleFault Document :=
  match sample.project.documentByName? name with
  | some doc => .ok doc
  | none => .error (.noDocument name)

def marker (sample : Sample) (number : Nat) : Except SampleFault Marker :=
  match sample.markers.find? (·.number == number) with
  | some marker => .ok marker
  | none => .error (.noMarker number)

/-- The line and column of a marker in its document. -/
def markerLineCol (sample : Sample) (marker : Marker) : Option LineCol :=
  (sample.project.document? marker.document).map fun doc => doc.lines.lineCol marker.pos

def range (sample : Sample) : Except SampleFault (DocumentId × Span) :=
  match sample.range? with
  | some range => .ok range
  | none => .error .noRange

end Sample

end CSharpKit.Fixture
