import Backfield.Batch
import Backfield.Disk.Basic
import Backfield.Source.Reader
import Backfield.Text.Search

/-!
# Delivery of artifacts

Writes a batch into a directory.  First every artifact is checked and no target may exist
unless it is to be overwritten; a batch that fails here changes nothing.  Then the artifacts
are written one after the other.

The check of a text is a parameter, `problemIn?`: the line of the first problem that a grammar of
C# finds in it.
-/

namespace Backfield.Delivery

/-! ## Before anything is written -/

/-- What makes a text unfit to be an artifact: it is no C#, or it declares no class. -/
def faultOf? (text : String) (problemIn? : String → Option Nat := Source.firstProblem?) :
    Option ArtifactFault :=
  match problemIn? text with
  | some line => some (.syntaxError line)
  | none => if Text.contains text "class " then none else some .noType

/-- Refuses an artifact that is unfit. -/
def checkArtifact (a : Artifact) (problemIn? : String → Option Nat := Source.firstProblem?) :
    Except Error Unit :=
  match faultOf? a.text problemIn? with
  | some fault => .error (.invalidArtifact a.name.display fault)
  | none => .ok ()

/-- The path that an artifact is written to. -/
def targetOf (directory : Path) (a : Artifact) : Except Error Path :=
  match a.name with
  | .text name => .ok (directory.join (Path.ofText name))
  | _ => .error (.setting .notFileName)

/-- Refuses a target that exists. -/
def checkTarget (disk : Disk) (cwd : Key) (target : Path) : Except Error Unit :=
  if disk.pathExists cwd target then .error (.targetExists target.text) else .ok ()

/-- The targets of a batch, if it may be written. -/
def prepare (settings : OutputSettings) (disk : Disk) (cwd : Key) (directory : Path)
    (artifacts : List Artifact) (problemIn? : String → Option Nat := Source.firstProblem?) :
    Except Error (List Path) := do
  if settings.validate.isTrue then artifacts.forM (checkArtifact · problemIn?)
  let targets ← artifacts.mapM (targetOf directory)
  if settings.mode = .mode .refuse then targets.forM (checkTarget disk cwd)
  return targets

/-! ## Writing -/

/-- Writes one file and the directories that lead to it. -/
def writeFile (atomic : Bool) (cwd : Key) (disk : Disk) (target : Path) (text : String) :
    Disk.Change :=
  let made := disk.makeDirectories cwd target.parent
  match made.result with
  | .error _ => made
  | .ok _ =>
    let bytes := Text.Utf8.encode text
    if atomic then made.disk.writeAtomically cwd target bytes
    else made.disk.writeBytes cwd target bytes

/-- A disk after a delivery, and how it went. -/
structure Outcome where
  disk : Disk
  written : Traced (List Path)

/-- Writes files one after the other until one fails. -/
def writeAll (atomic : Bool) (cwd : Key) : Disk → List (Path × String) → Outcome
  | disk, [] => ⟨disk, return []⟩
  | disk, (target, text) :: rest =>
    let change := writeFile atomic cwd disk target text
    match change.result with
    | .error (p, fault) => ⟨change.disk, Traced.fail (.file p.text fault)⟩
    | .ok _ =>
      let others := writeAll atomic cwd change.disk rest
      { disk := others.disk
        written := do
          Traced.log .info .delivery ("Wrote " ++ target.text)
          return target :: (← others.written) }

/-- Delivers a batch into a directory. -/
def deliver (settings : OutputSettings) (disk : Disk) (cwd : Key) (directory : Path)
    (artifacts : List Artifact) (problemIn? : String → Option Nat := Source.firstProblem?) :
    Outcome :=
  match prepare settings disk cwd directory artifacts problemIn? with
  | .error e => ⟨disk, Traced.fail e⟩
  | .ok targets =>
    writeAll settings.atomic.isTrue cwd disk (targets.zip (artifacts.map (·.text)))

end Backfield.Delivery
