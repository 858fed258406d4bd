import CSharpKit.Number.Binary64

/-! # TOML values

The values of a TOML document, and how tables grow line by line. A table can be
opened by its own header once, be implied by the header of a table inside it,
or come from dotted keys; what has been opened in one way cannot be reopened in
another. -/

namespace CSharpKit.Toml

open Number

inductive Value where
  | boolean (b : Bool)
  | integer (n : Int)
  | float (x : Binary64)
  | string (s : String)
  /-- A date, a time, or both. -/
  | datetime
  | array (items : List Value)
  | table (entries : List (String × Value))
  /-- Tables under a header in double brackets. -/
  | tables (rows : List (List (String × Value)))
  deriving Inhabited

/-- How a table came to be. -/
inductive TableOrigin where
  /-- By a header of its own. -/
  | header
  /-- By the header of a table inside it. -/
  | implied
  /-- By a dotted key. -/
  | dotted
  deriving DecidableEq

/-- What stands under a key while a document is read. -/
inductive Item where
  | value (v : Value)
  | table (origin : TableOrigin) (entries : List (String × Item))
  /-- Tables under a header in double brackets; the last one is open. -/
  | tables (rows : List (List (String × Item)))
  deriving Inhabited

/-- The keys of a table with what stands under them, in the order of the document. -/
abbrev Entries := List (String × Item)

namespace Item

mutual

/-- What is left when a document has been read. -/
def toValue : Item → Value
  | .value v => v
  | .table _ es => .table (entriesToValues es)
  | .tables rows => .tables (rowsToValues rows)

def entriesToValues : List (String × Item) → List (String × Value)
  | [] => []
  | (key, item) :: rest => (key, toValue item) :: entriesToValues rest

def rowsToValues : List (List (String × Item)) → List (List (String × Value))
  | [] => []
  | row :: rest => entriesToValues row :: rowsToValues rest

end

end Item

namespace Entries

/-- Puts another item under a key, in its place. -/
def set (es : Entries) (key : String) (item : Item) : Entries :=
  es.map fun (k, old) => if k == key then (k, item) else (k, old)

/-- Changes the table at a path. Missing tables on the way are made with the
origin `made`; values cannot be entered, and dotted keys do not enter tables that
have a header. -/
def changeAt (made : TableOrigin) (f : TableOrigin → Entries → Option Entries) :
    List String → TableOrigin → Entries → Option Entries
  | [], origin, es => f origin es
  | key :: path, _, es =>
    match es.lookup key with
    | none => (changeAt made f path made []).map fun inner => es ++ [(key, .table made inner)]
    | some (.value _) => none
    | some (.table origin inner) =>
      if made = .dotted && origin = .header then none
      else (changeAt made f path origin inner).map fun new => es.set key (.table origin new)
    | some (.tables rows) =>
      match rows.reverse with
      | [] => none
      | last :: before =>
        (changeAt made f path .header last).map fun new =>
          es.set key (.tables (before.reverse ++ [new]))

/-- Adds a value under a dotted key to a table. Tables of dotted keys take dotted
keys only, others do not. -/
def addValue (path : List String) (key : String) (v : Value) (origin : TableOrigin)
    (es : Entries) : Option Entries :=
  changeAt .dotted (fun found inner =>
    if (found = .dotted) ≠ (path ≠ []) || (inner.lookup key).isSome then none
    else some (inner ++ [(key, .value v)])) path origin es

/-- Opens the table under a header. -/
def openTable (path : List String) (key : String) (es : Entries) : Option Entries :=
  changeAt .implied (fun _ inner =>
    match inner.lookup key with
    | none => some (inner ++ [(key, .table .header [])])
    | some (.table .implied children) =>
      some (inner.filter (·.1 != key) ++ [(key, .table .header children)])
    | some _ => none) path .header es

/-- Opens one more table under a header in double brackets. -/
def openRow (path : List String) (key : String) (es : Entries) : Option Entries :=
  changeAt .implied (fun _ inner =>
    match inner.lookup key with
    | none => some (inner ++ [(key, .tables [[]])])
    | some (.tables rows) => some (inner.set key (.tables (rows ++ [[]])))
    | some _ => none) path .header es

/-- Adds a value to the open table, which is found at `table`. -/
def addLine (table path : List String) (key : String) (v : Value) (es : Entries) :
    Option Entries :=
  changeAt .implied (fun origin inner => addValue path key v origin inner) table .header es

end Entries

end CSharpKit.Toml
