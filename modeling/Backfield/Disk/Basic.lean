import Backfield.Disk.Path
import Backfield.Error

/-!
# Disks

A tree of directories and files, and the few things a program does with one.  Every entry
stands under its key, the components from the root on.  The root is always there.

There are no links, so a double dot always leads to the directory above, and what is said of every
disk is said of every tree of files and directories.  All can be read and written: what fails, fails
because something is missing, there already, a directory or none.
-/

namespace Backfield

/-- The components from the root to an entry. -/
abbrev Key := List String

inductive Entry
  | directory
  | file (bytes : List UInt8)
  deriving DecidableEq, Repr

structure Disk where
  entries : List (Key × Entry) := []
  deriving DecidableEq, Repr

namespace Disk

/-! ## Entries by key -/

def get? (disk : Disk) (key : Key) : Option Entry :=
  if key.isEmpty then some .directory else disk.entries.lookup key

/-- Puts an entry into a list of entries, in place of one with the same key. -/
def putEntry (key : Key) (entry : Entry) : List (Key × Entry) → List (Key × Entry)
  | [] => [(key, entry)]
  | e :: rest => if e.1 == key then (key, entry) :: rest else e :: putEntry key entry rest

def put (disk : Disk) (key : Key) (entry : Entry) : Disk :=
  ⟨putEntry key entry disk.entries⟩

def erase (disk : Disk) (key : Key) : Disk := ⟨disk.entries.filter (·.1 != key)⟩

/-! ## Paths -/

/-- Goes on from a directory along components.  All that is gone through has to be a
directory; what is reached need not exist. -/
def walk (disk : Disk) : Key → List String → Except FileFault Key
  | here, [] => .ok here
  | here, part :: rest =>
    match disk.get? here with
    | none => .error .notFound
    | some (.file _) => .error .notDirectory
    | some .directory =>
      if part == ".." then disk.walk here.dropLast rest else disk.walk (here ++ [part]) rest

/-- The key that a path leads to from a working directory. -/
def locate (disk : Disk) (cwd : Key) (p : Path) : Except FileFault Key :=
  disk.walk (if p.root == "" then cwd else []) p.parts

/-- What stands at a path. -/
def entry? (disk : Disk) (cwd : Key) (p : Path) : Option Entry :=
  match disk.locate cwd p with
  | .ok key => disk.get? key
  | .error _ => none

def pathExists (disk : Disk) (cwd : Key) (p : Path) : Bool := (disk.entry? cwd p).isSome

def isDirectory (disk : Disk) (cwd : Key) (p : Path) : Bool :=
  disk.entry? cwd p == some .directory

/-- The bytes of the file at a path. -/
def readBytes (disk : Disk) (cwd : Key) (p : Path) : Except FileFault (List UInt8) := do
  let key ← disk.locate cwd p
  match disk.get? key with
  | none => .error .notFound
  | some .directory => .error .isDirectory
  | some (.file bytes) => .ok bytes

/-! ## Changes -/

/-- Makes one directory in a directory that is there. -/
def makeDirectory (disk : Disk) (cwd : Key) (p : Path) : Except FileFault Disk := do
  let key ← disk.locate cwd p
  if (disk.get? key).isSome then .error .alreadyThere else .ok (disk.put key .directory)

/-- A disk after a change, and how the change ended: well, or at a path and for a reason.  A
change that fails may have been made in part. -/
structure Change where
  disk : Disk
  result : Except (Path × FileFault) Unit

/-- Accepts that a directory could not be made because it is there. -/
def acceptDirectory (disk : Disk) (cwd : Key) (p : Path) (fault : FileFault) : Change :=
  ⟨disk, if disk.isDirectory cwd p then .ok () else .error (p, fault)⟩

/-- Makes the directory at a path with all that lead to it.  The components come last one
first. -/
def makeDirectoriesFrom (cwd : Key) (root : String) : List String → Disk → Change
  | reversed, disk =>
    let p : Path := ⟨root, reversed.reverse⟩
    match disk.makeDirectory cwd p with
    | .ok disk => ⟨disk, .ok ()⟩
    | .error .notFound =>
      match reversed with
      | [] => ⟨disk, .error (p, .notFound)⟩
      | _ :: above =>
        let parent := makeDirectoriesFrom cwd root above disk
        match parent.result with
        | .error fault => ⟨parent.disk, .error fault⟩
        | .ok _ =>
          match parent.disk.makeDirectory cwd p with
          | .ok disk => ⟨disk, .ok ()⟩
          | .error fault => acceptDirectory parent.disk cwd p fault
    | .error fault => acceptDirectory disk cwd p fault

def makeDirectories (disk : Disk) (cwd : Key) (p : Path) : Change :=
  makeDirectoriesFrom cwd p.root p.parts.reverse disk

/-- Writes a file in a directory that is there, over one that is there. -/
def writeBytes (disk : Disk) (cwd : Key) (p : Path) (bytes : List UInt8) : Change :=
  match disk.locate cwd p with
  | .error fault => ⟨disk, .error (p, fault)⟩
  | .ok key =>
    match disk.get? key with
    | some .directory => ⟨disk, .error (p, .isDirectory)⟩
    | _ => ⟨disk.put key (.file bytes), .ok ()⟩

/-- The name of the `n`-th temporary file for a file. -/
def temporaryName (name : String) (n : Nat) : String :=
  "." ++ name ++ "." ++ toString n ++ ".tmp"

/-- The key of a temporary file in a directory that nothing stands at. -/
def temporaryKey (disk : Disk) (directory : Key) (name : String) : Key :=
  let keyOf (n : Nat) : Key := directory ++ [temporaryName name n]
  ((List.range disk.entries.length).map keyOf |>.find? fun key => (disk.get? key).isNone).getD
    (keyOf disk.entries.length)

/-- Moves a file with the given bytes to a key, over a file that is there but not over a
directory.  That the target is busy, if its path ends in a double dot, is not told apart. -/
def moveFile (disk : Disk) (source target : Key) (bytes : List UInt8) :
    Except FileFault Disk :=
  match disk.get? target with
  | some .directory => .error .isDirectory
  | _ => .ok ((disk.put target (.file bytes)).erase source)

/-- Writes a file by way of a temporary one in the same directory, so that it is never there
in part.  The temporary file does not stay, whatever happens. -/
def writeAtomically (disk : Disk) (cwd : Key) (p : Path) (bytes : List UInt8) : Change :=
  match disk.locate cwd p.parent with
  | .error fault => ⟨disk, .error (p, fault)⟩
  | .ok directory =>
    let source := disk.temporaryKey directory p.name
    let written := disk.put source (.file bytes)
    let moved := do
      let target ← written.locate cwd p
      written.moveFile source target bytes
    match moved with
    | .ok disk => ⟨disk, .ok ()⟩
    | .error fault => ⟨written.erase source, .error (p, fault)⟩

/-! ## Searching -/

/-- What stands below a key: the components from there on, and the entry. -/
def below (disk : Disk) (key : Key) : List (List String × Entry) :=
  disk.entries.filterMap fun e =>
    if key.isPrefixOf e.1 && e.1 != key then some (e.1.drop key.length, e.2) else none

end Disk

end Backfield
