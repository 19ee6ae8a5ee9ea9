import Backfield.CommandLine.Run

/-!
# The program

Runs a command on the disk of the machine.  What the arguments name is read into a `Disk`
beforehand, the run itself is pure, and what it changed is written back.
-/

namespace Backfield.Main

/-- The text of the full path to a key. -/
def fullPath (key : Key) : String := "/" ++ "/".intercalate key

/-- The bytes of a file, or none if there is no file to read. -/
def bytesOf? (key : Key) : IO (Option (List UInt8)) := do
  try
    return some (← IO.FS.readBinFile (fullPath key)).toList
  catch _ => return none

/-- What stands in a directory, or none if there is no directory. -/
def children? (key : Key) : IO (Option (List IO.FS.DirEntry)) := do
  try
    return some (← (← IO.FS.realPath (fullPath key)).readDir).toList
  catch _ => return none

/-- The entry is a link, which is not followed to a directory. -/
def isLink (entry : IO.FS.DirEntry) : IO Bool := do
  return (← entry.path.symlinkMetadata).type == .symlink

/-- Reads what stands at a key and below it.  Of files that are no sources only the names
matter, unless `whole` asks for their bytes. -/
partial def loadFrom (whole : Bool) (disk : Disk) (key : Key) : IO Disk := do
  match ← children? key with
  | some entries =>
    let mut disk := if key.isEmpty then disk else disk.put key .directory
    for entry in entries do
      let child := key ++ [entry.fileName]
      if ← isLink entry then
        disk := disk.put child (.file ((← bytesOf? child).getD []))
      else
        disk ← loadFrom false disk child
    return disk
  | none =>
    if whole || Text.endsWith (key.getLast?.getD "") Source.sourceSuffix then
      match ← bytesOf? key with
      | some bytes => return disk.put key (.file bytes)
      | none => return disk
    else return disk.put key (.file [])

/-- Reads the directories that lead to a key, as far as they exist. -/
def loadAbove (disk : Disk) (key : Key) : IO Disk := do
  let mut disk := disk
  for n in List.range key.length do
    let above := key.take n
    if !above.isEmpty && (disk.get? above).isNone then
      if (← children? above).isSome then disk := disk.put above .directory
  return disk

/-- Something stands at a key. -/
def isThere (key : Key) : IO Bool := do
  return (← children? key).isSome || (← bytesOf? key).isSome

/-- The part of the machine's disk that arguments name. -/
def loadDisk (cwd : Key) (args : List String) : IO Disk := do
  let texts :=
    match CommandLine.parse args with
    | .ok a => a.paths ++ a.values.map Prod.snd ++ (if (a.value? .output).isNone then ["."] else [])
    | .error _ => []
  let mut disk ← loadAbove {} cwd
  disk := disk.put cwd .directory
  for text in texts do
    let key := (CommandLine.resolvePath cwd text).parts
    disk ← loadAbove disk key
    if ← isThere key then disk ← loadFrom true disk key
  return disk

/-- Writes what differs between two disks. -/
def writeBack (before after : Disk) : IO Unit := do
  for (key, entry) in after.entries do
    if before.get? key != some entry then
      match entry with
      | .directory => IO.FS.createDirAll (fullPath key)
      | .file bytes => IO.FS.writeBinFile (fullPath key) ⟨bytes.toArray⟩

/-- A number with at least two digits. -/
def twoDigits (n : Nat) : String := (if n < 10 then "0" else "") ++ toString n

/-- Milliseconds as hours, minutes and seconds. -/
def clockText (milliseconds : Nat) : String :=
  let seconds := milliseconds / 1000
  twoDigits (seconds / 3600 % 24) ++ ":" ++ twoDigits (seconds / 60 % 60) ++ ":" ++
    twoDigits (seconds % 60)

end Backfield.Main

open Backfield in
/-- Runs the command line; times are those of the machine's clock since it was started. -/
def main (args : List String) : IO UInt32 := do
  let cwd := (Path.ofText (← IO.currentDir).toString).parts
  let before ← Main.loadDisk cwd args
  let result := CommandLine.run before cwd (Main.clockText (← IO.monoMsNow)) false args
  Main.writeBack before result.disk
  IO.print result.stdout
  IO.eprint result.stderr
  if let some e := result.escaped then IO.eprintln e.message
  return UInt32.ofNat result.exitCode
