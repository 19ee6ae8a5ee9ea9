import Backfield.Error
import Backfield.Value

/-!
# Settings

What a run can be told: the marker's name, the method that setters call, how artifacts are
named and what they contain, and how they are written.  `Settings.ofEntries` reads them
from the entries of an object, `Settings.toEntries` lists them again.

A setting keeps whatever value it is given.  Keys that name no setting are skipped, except
for a few reserved ones: `__class__` and `__weakref__` cannot be set at all, `__dict__`
replaces all settings at once, and `to_dict` hides the listing.
-/

namespace Backfield

/-- What to do about an artifact whose file exists. -/
inductive OutputMode
  | refuse
  | overwrite
  deriving DecidableEq, Repr

def OutputMode.text : OutputMode → String
  | refuse => "error"
  | overwrite => "force"

def OutputMode.ofText? : String → Option OutputMode
  | "error" => some .refuse
  | "force" => some .overwrite
  | _ => none

/-- The mode with this text. -/
def OutputMode.ofText (text : String) : Except Error OutputMode :=
  match ofText? text with
  | some mode => .ok mode
  | none => .error (.unknownOutputMode text)

/-- A mode as it was set: one of the two, or a value that is no text. -/
inductive ModeSetting
  | mode (m : OutputMode)
  | other (v : Value)
  deriving DecidableEq, Repr

/-- How artifacts are written. -/
structure OutputSettings where
  mode : ModeSetting := .mode .refuse
  validate : Value := .bool true
  atomic : Value := .bool true
  deriving DecidableEq, Repr

/-- The `output` setting: settings of its own, or a value that is no object. -/
inductive OutputSetting
  | settings (s : OutputSettings)
  | other (v : Value)
  deriving DecidableEq, Repr

structure Settings where
  markerNamespace : Value := .text "ReactiveObject.Generators"
  markerName : Value := .text "ReactivePropertyAttribute"
  notifyMethod : Value := .text "RaiseAndSetIfChanged"
  artifactSuffix : Value := .text "ReactiveProperty.g.cs"
  markerArtifact : Value := .text "ReactivePropertyAttribute.g.cs"
  qualifyNames : Value := .bool true
  embedMarker : Value := .bool false
  banner : Value := .bool true
  output : OutputSetting := .settings {}
  /-- Some setting goes by the name of the listing, which hides it. -/
  listingHidden : Bool := false
  deriving DecidableEq, Repr

namespace Settings

/-- The marker's name within its namespace, or the bare name if there is no namespace. -/
def markerFullName (s : Settings) : Value :=
  if s.markerNamespace.isTrue then
    .text (s.markerNamespace.display ++ "." ++ s.markerName.display)
  else s.markerName

/-! ## Reading -/

/-- The mode that an entry asks for. -/
def readMode : Option Value → Except Error ModeSetting
  | none => .ok (.mode .refuse)
  | some (.text text) => (OutputMode.ofText text).map .mode
  | some v => .ok (.other v)

/-- The `output` settings that the entries of an object ask for. -/
def readOutput (entries : List (String × Value)) : Except Error OutputSettings := do
  let mode ← readMode (Value.get? "mode" entries)
  return {
    mode
    validate := (Value.get? "validate_before_write" entries).getD (.bool true)
    atomic := (Value.get? "atomic_write" entries).getD (.bool true) }

/-- Stores a value under a key as it is.  A key without a setting has no effect. -/
def store (s : Settings) (key : String) (v : Value) : Settings :=
  match key with
  | "marker_namespace" => { s with markerNamespace := v }
  | "marker_name" => { s with markerName := v }
  | "notify_method" => { s with notifyMethod := v }
  | "artifact_suffix" => { s with artifactSuffix := v }
  | "marker_artifact_name" => { s with markerArtifact := v }
  | "qualify_artifact_names" => { s with qualifyNames := v }
  | "embed_marker_source" => { s with embedMarker := v }
  | "add_generation_comment" => { s with banner := v }
  | "output" => { s with output := .other v }
  | "to_dict" => { s with listingHidden := true }
  | _ => s

/-- All settings at once: those that the entries lack get their default, but for `output`,
which has none. -/
def replaceAll (entries : List (String × Value)) : Settings :=
  entries.foldl (fun s entry => s.store entry.1 entry.2) { output := .other .null }

/-- Follows one entry. -/
def assign (s : Settings) (key : String) (v : Value) : Except Error Settings :=
  match key, v with
  | "output", .object entries => do
    let output ← readOutput entries
    return { s with output := .settings output }
  | "__dict__", .object entries => .ok (replaceAll entries)
  | "__dict__", _ => .error (.setting (.reservedKey key))
  | "__class__", _ => .error (.setting (.reservedKey key))
  | "__weakref__", _ => .error (.setting (.lockedKey key))
  | _, _ => .ok (s.store key v)

/-- The settings that the entries of an object ask for, over the defaults. -/
def ofEntries (entries : List (String × Value)) : Except Error Settings :=
  entries.foldlM (fun s entry => s.assign entry.1 entry.2) {}

/-- The settings of a document. -/
def ofValue : Value → Except Error Settings
  | .object entries => ofEntries entries
  | _ => .error (.setting .notObject)

/-! ## Listing -/

/-- The `output` settings as an object; they can be listed if the mode is one of the two. -/
def listOutput : OutputSetting → Except Error Value
  | .settings { mode := .mode m, validate, atomic } =>
    .ok (.object [("mode", .text m.text), ("validate_before_write", validate),
      ("atomic_write", atomic)])
  | _ => .error (.setting .noOutputMode)

/-- All settings, in a fixed order. -/
def toEntries (s : Settings) : Except Error (List (String × Value)) :=
  if s.listingHidden then .error (.setting .hiddenListing)
  else do
    let output ← listOutput s.output
    return [
      ("marker_namespace", s.markerNamespace),
      ("marker_name", s.markerName),
      ("notify_method", s.notifyMethod),
      ("artifact_suffix", s.artifactSuffix),
      ("marker_artifact_name", s.markerArtifact),
      ("qualify_artifact_names", s.qualifyNames),
      ("embed_marker_source", s.embedMarker),
      ("add_generation_comment", s.banner),
      ("output", output)]

/-! ## Changes made on a command line -/

/-- Changes the `output` settings, if there are any to change. -/
def mapOutput (s : Settings) (f : OutputSettings → OutputSettings) : Except Error Settings :=
  match s.output with
  | .settings output => .ok { s with output := .settings (f output) }
  | .other _ => .error (.setting .noOutputMode)

end Settings

end Backfield
