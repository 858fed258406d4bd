/-! # Paths

Paths with slashes between their parts, as they are written: no file system is
asked. -/

namespace CSharpKit.Workspace

/-- Whether a part of a path names nothing. -/
def isIdlePart (part : String) : Bool := part.isEmpty || part == "."

/-- The parts of a path; empty parts and `.` add nothing. -/
def pathParts (path : String) : List String :=
  (path.splitOn "/").filter fun part => !isIdlePart part

/-- Where parts lead when `..` goes back; `none` if they lead out of the directory
they start in. -/
def resolve? (parts : List String) : Option (List String) :=
  parts.foldlM (fun directory part =>
    if part != ".." then some (directory ++ [part])
    else if directory.isEmpty then none
    else some directory.dropLast) []

/-- The directories that are made when a file is written. -/
def directoriesOf (path : String) : List (List String) :=
  let parts := pathParts path
  (List.range parts.length).filterMap fun n => resolve? (parts.take n)

def isAbsolute (path : String) : Bool := path.startsWith "/"

/-- A path without the idle parts at its ends; an absolute one stays as it is. -/
def trimPath (path : String) : String :=
  let parts := (path.splitOn "/").dropWhile isIdlePart
  if isAbsolute path then path
  else "/".intercalate (parts.reverse.dropWhile isIdlePart).reverse

/-- The path from a directory to a path below it. -/
def relativePath? (directory path : String) : Option String :=
  let rec strip : List String → List String → Option (List String)
    | [], rest => some rest
    | _ :: _, [] => none
    | d :: ds, p :: ps =>
      if isIdlePart p then strip (d :: ds) ps else if d == p then strip ds ps else none
  (strip (pathParts directory) (path.splitOn "/")).map fun rest =>
    "/".intercalate (rest.dropWhile isIdlePart)

/-- What stands behind the last dot of a file name; a name that only opens with
a dot has no extension. -/
def extension? (fileName : String) : Option String :=
  match (fileName.splitOn ".").reverse with
  | ext :: stem =>
    if stem.isEmpty || stem == [""] then none else some ext
  | [] => none

end CSharpKit.Workspace
