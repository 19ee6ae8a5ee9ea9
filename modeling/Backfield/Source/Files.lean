import Backfield.Disk.Basic
import Backfield.Source.Reader
import Backfield.Text.Search

/-!
# Reading source files

Which files a list of files and directories stands for, and what all of them declare.
-/

namespace Backfield.Source

/-- How the name of a source file ends. -/
def sourceSuffix : String := ".cs"

/-- How the name of a generated file ends. -/
def generatedSuffix : String := ".g.cs"

/-- The paths that one path stands for: a directory for everything below it that is named
like a source file, anything else for itself. -/
def pathsUnder (disk : Disk) (cwd : Key) (p : Path) : List Path :=
  match disk.locate cwd p with
  | .ok key =>
    if disk.get? key = some .directory then
      ((disk.below key).filter fun e => Text.endsWith (e.1.getLast?.getD "") sourceSuffix).map
        fun e => { p with parts := p.parts ++ e.1 }
    else [p]
  | .error _ => [p]

/-- The path may be left out as one of a generated file. -/
def isGenerated (p : Path) : Bool := Text.endsWith p.name generatedSuffix

/-- The files that a list of paths stands for, in order and each once. -/
def expandPaths (disk : Disk) (cwd : Key) (excludeGenerated : Bool) (paths : List Path) :
    List Path :=
  let found := paths.flatMap (pathsUnder disk cwd)
  let kept := if excludeGenerated then found.filter (!isGenerated ·) else found
  (kept.mergeSort Path.le).eraseDups

/-- What a set of files declares. -/
structure SourceSet where
  fragments : List Fragment := []
  /-- The full names of all types, each once. -/
  names : List String := []
  paths : List Path := []
  deriving DecidableEq, Repr

/-- The text of a file. -/
def readText (disk : Disk) (cwd : Key) (p : Path) : Except Error String :=
  match disk.readBytes cwd p with
  | .error fault => .error (.unreadable p.text fault)
  | .ok bytes =>
    match Text.Utf8.decode bytes with
    | .error fault => .error (.notUtf8 p.text fault)
    | .ok text => .ok text

/-- What successive files declare, each beside its path. -/
def readEach (disk : Disk) (cwd : Key) : List Path → Traced (List (Path × Found))
  | [] => return []
  | p :: rest => do
    let code ← Traced.lift (readText disk cwd p)
    Traced.log .debug .reader ("Reading " ++ p.text)
    let found ← read code p.text
    let others ← readEach disk cwd rest
    return (p, found) :: others

/-- What the files that a list of paths stands for declare. -/
def readPaths (disk : Disk) (cwd : Key) (excludeGenerated : Bool) (paths : List Path) :
    Traced SourceSet := do
  let found ← readEach disk cwd (expandPaths disk cwd excludeGenerated paths)
  let set : SourceSet := {
    fragments := found.flatMap (·.2.fragments)
    names := (found.flatMap (·.2.names)).eraseDups
    paths := found.map (·.1) }
  Traced.log .info .reader
    ("Read " ++ toString set.paths.length ++ " file(s), " ++ toString set.fragments.length ++
      " class declaration(s)")
  return set

end Backfield.Source
