import CSharpKit.Workspace.Document

/-! # Projects

A project is a row of documents in the order of their numbers. An operation
returns a new project or fails as a whole; documents it does not name stay as
they are. -/

namespace CSharpKit.Workspace

open Syntax

inductive ProjectError where
  | unknownDocument (id : DocumentId)
  | duplicateDocument (name : String)
  deriving DecidableEq

def ProjectError.message : ProjectError → String
  | .unknownDocument id => s!"unknown document {showId id}"
  | .duplicateDocument name => s!"a document named `{name}` already exists"

structure Project where
  documents : List Document
  nextId : DocumentId
  ids_sorted : (documents.map (·.id)).Pairwise (· < ·)
  ids_below : ∀ doc ∈ documents, doc.id < nextId

namespace Project

def empty : Project := ⟨[], 0, List.Pairwise.nil, nofun⟩

instance : Inhabited Project := ⟨empty⟩

def document? (p : Project) (id : DocumentId) : Option Document := p.documents.find? (·.id == id)

def documentByName? (p : Project) (name : String) : Option Document :=
  p.documents.find? (·.name == name)

def ids (p : Project) : List DocumentId := p.documents.map (·.id)

/-- The project with a document behind the others. -/
def append (p : Project) (doc : Document) (h : doc.id = p.nextId) : Project where
  documents := p.documents ++ [doc]
  nextId := p.nextId + 1
  ids_sorted := by
    rw [List.map_append, List.pairwise_append]
    refine ⟨p.ids_sorted, List.pairwise_singleton _ _, ?_⟩
    intro a ha b hb
    obtain ⟨old, hold, rfl⟩ := List.mem_map.mp ha
    obtain rfl : b = doc.id := by simpa using hb
    exact h ▸ p.ids_below old hold
  ids_below := by
    intro d hd
    rcases List.mem_append.mp hd with hd | hd
    · exact Nat.lt_succ_of_lt (p.ids_below d hd)
    · obtain rfl : d = doc := by simpa using hd
      exact h ▸ Nat.lt_succ_self _

/-- Adds a document under the next number. -/
def add (p : Project) (name text : String) : Except ProjectError (Project × DocumentId) :=
  if (p.documentByName? name).isSome then .error (.duplicateDocument name)
  else .ok (p.append (Document.read p.nextId name text 0) rfl, p.nextId)

/-- A project of named texts, numbered in their order. -/
def ofSources (sources : List (String × String)) : Except ProjectError Project :=
  sources.foldlM (fun p (name, text) => do return (← p.add name text).1) empty

/-- Puts a document in the place of the one with its number. -/
def replace (p : Project) (doc : Document) : Project where
  documents := p.documents.map fun old => if old.id == doc.id then doc else old
  nextId := p.nextId
  ids_sorted := by
    have hid : ∀ old : Document, (if old.id == doc.id then doc else old).id = old.id := by
      intro old
      split
      · next h => exact (beq_iff_eq.mp h).symm
      · rfl
    simp only [List.map_map, Function.comp_def, hid]
    exact p.ids_sorted
  ids_below := by
    intro d hd
    obtain ⟨old, hold, rfl⟩ := List.mem_map.mp hd
    split
    · next h => exact beq_iff_eq.mp h ▸ p.ids_below old hold
    · exact p.ids_below old hold

def withText (p : Project) (id : DocumentId) (text : String) : Except ProjectError Project :=
  match p.document? id with
  | some doc => .ok (p.replace (doc.withText text))
  | none => .error (.unknownDocument id)

/-- Gives several documents new texts at once: all of them, or none if a number
is unknown. The last text for a number counts. -/
def withTexts (p : Project) (texts : List (DocumentId × String)) : Except ProjectError Project := do
  let replacements ← texts.mapM fun (id, text) =>
    match p.document? id with
    | some doc => .ok (doc.withText text)
    | none => .error (.unknownDocument id)
  return replacements.foldl replace p

/-- Gives several documents new trees at once. A tree is taken as its text and
read again, so every tree of a project is one that reading makes. -/
def withRoots (p : Project) (roots : List (DocumentId × Tree)) : Except ProjectError Project :=
  p.withTexts (roots.map fun (id, root) => (id, root.text))

/-- For each document, whether it still has the text of its number in `before`. -/
def sharedWith (p before : Project) : List Bool :=
  p.documents.map fun doc => (before.document? doc.id).any doc.sharesText

end Project

end CSharpKit.Workspace
