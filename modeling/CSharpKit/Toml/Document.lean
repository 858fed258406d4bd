import CSharpKit.Toml.Reader

/-! # TOML documents

A document is read line by line: a header opens a table, and a key adds a value
to the table that is open. -/

namespace CSharpKit.Toml

/-- What has been read of a document: its entries and the path of the open table. -/
structure Draft where
  entries : Entries
  table : List String

/-- A line with a header, behind its bracket. -/
def headerLine (draft : Draft) (cs : List Char) : Option (Draft × List Char) := do
  match cs with
  | '[' :: cs =>
    let ((path, key), rest) ← key? cs
    let rest ← expect ']' (← expect ']' rest)
    let entries ← Entries.openRow path key draft.entries
    return (⟨entries, path ++ [key]⟩, rest)
  | cs =>
    let ((path, key), rest) ← key? cs
    let rest ← expect ']' rest
    let entries ← Entries.openTable path key draft.entries
    return (⟨entries, path ++ [key]⟩, rest)

/-- A line with a key and a value. -/
def valueLine (draft : Draft) (cs : List Char) : Option (Draft × List Char) := do
  let ((path, key), rest) ← key? cs
  let (v, rest) ← value? depthLimit (skipGap (← expect '=' rest))
  let entries ← Entries.addLine draft.table path key v draft.entries
  return (⟨entries, draft.table⟩, rest)

/-- Reads lines to the end of the text; `fuel` bounds their number. -/
def readLines : Nat → Draft → List Char → Option Draft
  | 0, _, _ => none
  | fuel + 1, draft, cs =>
    match skipGap cs with
    | [] => some draft
    | '#' :: rest => do readLines fuel draft (← lineEnd? ('#' :: rest))
    | '[' :: rest => do
      let (draft, rest) ← headerLine draft rest
      readLines fuel draft (← lineEnd? rest)
    | rest =>
      match lineBreak? rest with
      | some rest => readLines fuel draft rest
      | none => do
        let (draft, rest) ← valueLine draft rest
        readLines fuel draft (← lineEnd? rest)

/-- The text without a byte order mark. -/
def dropMark : List Char → List Char
  | '\ufeff' :: rest => rest
  | cs => cs

/-- The entries of a document; `none` if it is not well formed. -/
def parse (text : String) : Option (List (String × Value)) :=
  let cs := dropMark text.toList
  (readLines (cs.length + 1) ⟨[], []⟩ cs).map fun draft => Item.entriesToValues draft.entries

end CSharpKit.Toml
