import CSharpKit.Settings.Load
import CSharpKit.Workspace.Path

/-! # Finding settings

The settings of a workspace are in the file that the environment names, or in one
of two files in its root directory. -/

namespace CSharpKit.Settings

open Workspace

/-- The files below the root directory of a workspace, with their texts. -/
structure Root where
  /-- The absolute path of the directory. -/
  path : String
  files : List (String × String)

namespace Root

/-- The text of a file; the last one given for a path counts. -/
def text? (r : Root) (parts : List String) : Option String :=
  (r.files.reverse.find? fun file => resolve? (pathParts file.1) == some parts).map (·.2)

def isDirectory (r : Root) (parts : List String) : Bool :=
  parts.isEmpty || r.files.any fun file => (directoriesOf file.1).contains parts

/-- Follows a path through the directories, `dir` being the way so far. It cannot
leave the root. -/
def follow (r : Root) (dir : List String) : List String → Option (List String)
  | [] => some dir
  | part :: rest =>
    if !r.isDirectory dir then none
    else if part == ".." then if dir.isEmpty then none else r.follow dir.dropLast rest
    else r.follow (dir ++ [part]) rest

/-- The text of the file at a path from the root. A path that ends with a slash
does not name a file, and an absolute one leads elsewhere. -/
def read? (r : Root) (path : String) : Option String :=
  if isAbsolute path || (path.splitOn "/").getLast?.any isIdlePart then none
  else (r.follow [] (pathParts path)).bind r.text?

/-- The places of the settings below the root. -/
def usualPaths : List String := ["sable.toml", ".sable/config.toml"]

/-- Where the settings of the workspace are, from the root. A path that the
environment gives is taken without a look at the files. -/
def settingsPath? (r : Root) (environment : Option String) : Option String :=
  match environment with
  | some path => if isAbsolute path then some ((relativePath? r.path path).getD path) else some path
  | none => usualPaths.find? fun path => (r.text? (pathParts path)).isSome

/-- Reads the settings in a file. -/
def loadFile (r : Root) (path : String) : Except LoadError Loaded :=
  match r.read? path with
  | some text => load text
  | none => .error .unreadable

/-- The settings of the workspace. -/
def loadSettings (r : Root) (environment : Option String) : Except LoadError Loaded :=
  match r.settingsPath? environment with
  | some path => r.loadFile path
  | none => .ok Loaded.default

end Root

end CSharpKit.Settings
