import CSharpKit.Syntax.Cursor
import CSharpKit.Syntax.Parse
import CSharpKit.Text.Lines

/-! # Documents

A document is a named source text with what reading it gives: the tree, the
complaints and the lines. -/

namespace CSharpKit.Workspace

open Syntax Text

/-- The number of a document in its project. -/
abbrev DocumentId := Nat

/-- A document number as messages show it. -/
def showId (id : DocumentId) : String := s!"DocumentId({id})"

structure Document where
  id : DocumentId
  name : String
  text : String
  parsed : Parsed
  lines : Lines
  /-- How many texts this document had before this one. -/
  version : Nat
  parsed_eq : parsed = parse text := by rfl
  lines_eq : lines = Lines.ofText text := by rfl

namespace Document

/-- Reads a text as a document. -/
def read (id : DocumentId) (name text : String) (version : Nat) : Document where
  id := id
  name := name
  text := text
  parsed := parse text
  lines := Lines.ofText text
  version := version

instance : Inhabited Document := ⟨read 0 "" "" 0⟩

/-- The document with a new text. -/
def withText (doc : Document) (text : String) : Document :=
  read doc.id doc.name text (doc.version + 1)

def root (doc : Document) : Cursor := .root doc.parsed.tree

def errors (doc : Document) : List ParseError := doc.parsed.errors

/-- Whether a document still has the text it had in another state of its project. -/
def sharesText (doc before : Document) : Bool := doc.version == before.version

end Document

end CSharpKit.Workspace
