import CSharpKit.Fixture.Sample
import CSharpKit.Workspace.Path

/-! # Directories of sources

The sources of a project kept as files: those whose extension is `cs`, by their
path and in the order of their paths. A directory of expected sources either
has to match a project, or is written from it. -/

namespace CSharpKit.Fixture

open Text Workspace

def isSource (path : String) : Bool :=
  ((pathParts path).getLast?.bind extension?) == some "cs"

/-- Texts by path, in the order of the paths. -/
abbrev Sources := List (String × String)

/-- Files by path, in the order of the paths; the last text for a path counts, and
a path that leads out of the directory does not. -/
def ofFiles (files : List (String × String)) : Sources :=
  let named := files.filterMap fun (path, text) =>
    (resolve? (pathParts path)).map fun parts => ("/".intercalate parts, text)
  let distinct := named.foldl
    (fun kept file => kept.filter (fun other => other.1 != file.1) ++ [file]) []
  distinct.mergeSort fun a b => !(b.1 < a.1)

/-- The sources among the files of a directory. -/
def sourcesOf (files : List (String × String)) : Sources :=
  (ofFiles files).filter fun file => isSource file.1

/-- The sources of a project. -/
def projectSources (p : Project) : Sources := ofFiles (p.documents.map fun d => (d.name, d.text))

/-- Whether a setting asks to write the expected sources. -/
def blesses (setting : Option String) : Bool :=
  setting.any fun value =>
    let word := trim value
    !(word.isEmpty || word == "0" || word.toLower == "false")

/-- Checks a project against a directory of expected sources, or writes it.
`expected` is `none` if there is no such directory. Returns whether the project
passed, and the directory afterwards. -/
def checkSources (p : Project) (expected : Option Sources) (write : Bool) : Bool × Option Sources :=
  let actual := projectSources p
  if write then (true, if actual.isEmpty then none else some actual)
  else (expected == some actual, expected)

end CSharpKit.Fixture
