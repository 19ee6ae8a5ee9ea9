import Backfield.CommandLine.LogFormat
import Backfield.CommandLine.Options
import Backfield.Delivery
import Backfield.Json
import Backfield.Source.Files

/-!
# Running a command

A whole run, from the arguments to the exit code: the settings are read, the sources, then
the batch is generated and delivered, or only listed.
-/

namespace Backfield.CommandLine

/-! ## Paths on a command line -/

/-- A path without its dots.  A double dot takes the component before it away. -/
def dropDots (parts : List String) : List String :=
  parts.foldl (fun before part => if part == ".." then before.dropLast else before ++ [part]) []

/-- The full path that an argument stands for. -/
def resolvePath (cwd : Key) (text : String) : Path :=
  let p := Path.ofText text
  if p.root == "" then ⟨"/", dropDots (cwd ++ p.parts)⟩ else ⟨p.root, dropDots p.parts⟩

/-- Refuses a path that does not lead to what its role asks for. -/
def checkPath (disk : Disk) (cwd : Key) (role : PathRole) (text : String) :
    Except UsageFault Path :=
  let p := resolvePath cwd text
  match disk.entry? cwd p, role with
  | none, .output => .ok p
  | none, role => .error (.badPath role text .missing)
  | some (.file _), .output => .error (.badPath role text .isFile)
  | some .directory, .config => .error (.badPath role text .isDirectory)
  | some _, _ => .ok p

/-! ## Requests -/

/-- What a run is asked to do. -/
structure Request where
  output : Path
  config : Option Path
  sources : List Path
  flags : List Flag
  deriving DecidableEq, Repr

def Request.has (r : Request) (f : Flag) : Bool := r.flags.contains f

/-- The options that were given a value, in order of first appearance. -/
def Arguments.parameters (a : Arguments) : List Parameter := (a.values.map (·.1)).eraseDups

/-- Checks the value of an option. -/
def checkParameter (disk : Disk) (cwd : Key) (a : Arguments) (p : Parameter) :
    Except UsageFault Unit :=
  match a.value? p with
  | none => .ok ()
  | some text =>
    let role := match p with
      | .output => PathRole.output
      | .config => .config
    (checkPath disk cwd role text).map fun _ => ()

/-- The request that arguments make.  Options are checked in the order in which they were
given, and before the paths. -/
def Arguments.request (disk : Disk) (cwd : Key) (a : Arguments) : Except UsageFault Request := do
  a.parameters.forM (checkParameter disk cwd a)
  if a.paths.isEmpty then throw .noPaths
  let sources ← a.paths.mapM (checkPath disk cwd .source)
  return {
    output := resolvePath cwd ((a.value? .output).getD ".")
    config := (a.value? .config).map (resolvePath cwd)
    sources
    flags := a.flags }

/-- The level from which messages are shown. -/
def Request.shown (r : Request) : Level :=
  if r.has .debug then .debug else if r.has .verbose then .info else .warning

/-! ## Settings -/

/-- The settings in the bytes of a file. -/
def settingsOfBytes (bytes : List UInt8) : Except Error Settings :=
  match Text.Utf8.decodeFrom 0 bytes with
  | .error _ => .error (.setting .notText)
  | .ok chars =>
    match Json.parse? (String.ofList chars) with
    | none => .error (.setting .notJson)
    | some v => Settings.ofValue v

/-- The settings in the file that a request names, or the defaults. -/
def fileSettings (disk : Disk) (cwd : Key) (r : Request) : Except Error Settings :=
  match r.config with
  | none => .ok {}
  | some p =>
    match disk.readBytes cwd p with
    | .error fault => .error (.file p.text fault)
    | .ok bytes => settingsOfBytes bytes

/-- The settings of a request: flags go before the file. -/
def settingsOf (disk : Disk) (cwd : Key) (r : Request) : Except Error Settings := do
  let settings ← fileSettings disk cwd r
  let settings ←
    if r.has .force then settings.mapOutput ({ · with mode := .mode .overwrite })
    else pure settings
  let settings ←
    if r.has .noValidate then settings.mapOutput ({ · with validate := .bool false })
    else pure settings
  return if r.has .simpleNames then { settings with qualifyNames := .bool false } else settings

/-! ## Runs -/

/-- The artifacts that a request asks for.  The flag tells whether the run is interrupted
once the sources have been read. -/
def artifactsOf (disk : Disk) (cwd : Key) (r : Request) (interrupted : Bool)
    (settings : Settings) : Traced (List Artifact) := do
  let set ← Source.readPaths disk cwd (!r.has .includeGenerated) r.sources
  let known ← Traced.lift ((KnownTypes.ofNames set.names).add settings.markerFullName)
  Batch.generate settings known set.fragments (if interrupted then .atStart else .never)

/-- The settings of a request, listed in the log. -/
def loggedSettings (disk : Disk) (cwd : Key) (r : Request) : Traced Settings := do
  let settings ← Traced.lift (settingsOf disk cwd r)
  let listed ← Traced.lift settings.toEntries
  Traced.log .debug .command ("Configuration: " ++ (Value.object listed).literal)
  return settings

/-- A name as it is listed; nothing is an empty line. -/
def nameLine : Value → String
  | .null => "\n"
  | name => name.display ++ "\n"

/-- The settings and artifacts of a request. -/
def prepared (disk : Disk) (cwd : Key) (r : Request) (interrupted : Bool) :
    Traced (Settings × List Artifact) := do
  let settings ← loggedSettings disk cwd r
  let artifacts ← artifactsOf disk cwd r interrupted settings
  return (settings, artifacts)

/-- A disk after a request, and what is printed in the end. -/
structure Done where
  disk : Disk
  output : Traced String

/-- Delivers artifacts, and says how many there are. -/
def delivered (disk : Disk) (cwd : Key) (r : Request) (settings : OutputSettings)
    (artifacts : List Artifact) : Done :=
  let outcome := Delivery.deliver settings disk cwd r.output artifacts
  { disk := outcome.disk
    output := do
      let written ← outcome.written
      return "Generated " ++ toString written.length ++ " file(s) in " ++ r.output.text ++ "\n" }

/-- Does what a request asks for. -/
def perform (disk : Disk) (cwd : Key) (r : Request) (interrupted : Bool) : Done :=
  let before := prepared disk cwd r interrupted
  match before.outcome with
  | .error e => ⟨disk, ⟨before.events, .error e⟩⟩
  | .ok (settings, artifacts) =>
    if r.has .dryRun then
      ⟨disk, ⟨before.events, .ok (String.join (artifacts.map (nameLine ·.name)))⟩⟩
    else
      match settings.output with
      | .other _ => ⟨disk, ⟨before.events, .error (.setting .noOutputMode)⟩⟩
      | .settings output =>
        let done := delivered disk cwd r output artifacts
        ⟨done.disk, ⟨before.events ++ done.output.events, done.output.outcome⟩⟩

/-- How a run ended, all that it printed, and the disk it leaves. -/
structure Result where
  exitCode : Nat
  stdout : String := ""
  stderr : String := ""
  /-- An error that no message is printed for. -/
  escaped : Option Error := none
  disk : Disk

/-- The error is reported; any other ends the run without a word. -/
def isReported : Error → Bool
  | .cancelled => true
  | .duplicateArtifact .. => true
  | .unreadable .. => true
  | .notUtf8 .. => true
  | .invalidArtifact .. => true
  | .targetExists _ => true
  | .file _ fault => fault == .alreadyThere
  | _ => false

/-- The result of a request that has been carried out. -/
def Done.result (time : String) (shown : Level) (done : Done) : Result :=
  let log := logText shown time done.output.entries
  match done.output.outcome with
  | .ok text => { exitCode := 0, stdout := text, stderr := log, disk := done.disk }
  | .error e =>
    if isReported e then
      { exitCode := 1, stderr := log ++ "Error: " ++ e.message ++ "\n", disk := done.disk }
    else { exitCode := 1, stderr := log, escaped := some e, disk := done.disk }

/-- A result for arguments that make no sense. -/
def UsageFault.result (disk : Disk) (fault : UsageFault) : Result :=
  { exitCode := 2, stderr := fault.report, disk }

/-- A run in a working directory at a time of day. -/
def run (disk : Disk) (cwd : Key) (time : String) (interrupted : Bool) (args : List String) :
    Result :=
  match parse args with
  | .error fault => fault.result disk
  | .ok a =>
    if a.flags.contains .help then { exitCode := 0, stdout := helpText, disk }
    else
      match a.request disk cwd with
      | .error fault => fault.result disk
      | .ok r => (perform disk cwd r interrupted).result time r.shown

end Backfield.CommandLine
