import Backfield.Proofs.Settings.IgnoredKeys
import Backfield.Proofs.Settings.OutputMode

/-!
# Reading and listing settings

Settings that have been read from a document can be listed again, and the listing reads as the same
settings.  Reading and listing treat the settings one by one, and any value can be stored, so there
is one way each in which they can fail.

* `foldlM_assign_eq` is the loop over the entries of a document: each setting is what its key stands
  for, and what it was if the document does not have the key.
* `outputOver_eq_error_iff` says when reading fails, `listOutput_eq_error_iff` when listing does.
* `overDefaults` is the listing that a document asks for: the default one, with the values of the
  document put over it.
* `ofEntries_roundTrip` puts all of this together.
-/

namespace Backfield

namespace Value

theorem get?_cons (key : String) (e : String × Value) (entries : List (String × Value)) :
    get? key (e :: entries) = if key = e.1 then some e.2 else get? key entries := by
  rw [get?, List.lookup_cons]
  by_cases hkey : key = e.1
  · rw [if_pos hkey, beq_iff_eq.mpr hkey]
  · rw [if_neg hkey, beq_eq_false_iff_ne.mpr hkey]

theorem get?_eq_none {key : String} {entries : List (String × Value)}
    (h : key ∉ entries.map Prod.fst) : get? key entries = none := by
  rw [get?, List.lookup_eq_none_iff]
  intro e he
  rw [bne_iff_ne]
  rintro rfl
  exact h (List.mem_map_of_mem he)

end Value

namespace Settings

open Value (get?)

variable {key : String} {v : Value} {entries : List (String × Value)}

/-! ## Reading all entries -/

/-- The `output` setting after an entry that may be missing. -/
def outputOver (current : OutputSetting) : Option Value → Except Error OutputSetting
  | none => .ok current
  | some (.object entries) => (readOutput entries).map .settings
  | some v => .ok (.other v)

/-- The settings with the values of some entries, but for `output`, which is given. -/
def settingsOver (s : Settings) (entries : List (String × Value)) (output : OutputSetting) :
    Settings where
  markerNamespace := (get? "marker_namespace" entries).getD s.markerNamespace
  markerName := (get? "marker_name" entries).getD s.markerName
  notifyMethod := (get? "notify_method" entries).getD s.notifyMethod
  artifactSuffix := (get? "artifact_suffix" entries).getD s.artifactSuffix
  markerArtifact := (get? "marker_artifact_name" entries).getD s.markerArtifact
  qualifyNames := (get? "qualify_artifact_names" entries).getD s.qualifyNames
  embedMarker := (get? "embed_marker_source" entries).getD s.embedMarker
  banner := (get? "add_generation_comment" entries).getD s.banner
  output
  listingHidden := s.listingHidden

theorem assign_output (s : Settings) (v : Value) :
    s.assign "output" v = (outputOver s.output (some v)).map fun output => { s with output } := by
  cases v with
  | object entries =>
    rw [assign, outputOver]
    cases readOutput entries <;> rfl
  | _ => rfl

theorem assign_of_setting (s : Settings) (hkey : key ∈ settingKeys) (hother : key ≠ "output") :
    s.assign key v = .ok (s.store key v) := by
  rw [assign.eq_def]
  split
  case h_1 => exact absurd rfl hother
  case h_6 => rfl
  all_goals exact absurd hkey (by decide)

/-- A setting that is stored is not changed by later entries, since none of them has its key. -/
theorem settingsOver_store (s : Settings) (output : OutputSetting) (hkey : key ∈ settingKeys)
    (hother : key ≠ "output") (hnew : get? key entries = none) :
    (s.store key v).output = s.output ∧
      settingsOver (s.store key v) entries output =
        settingsOver s ((key, v) :: entries) output := by
  simp only [settingKeys, List.mem_cons, List.not_mem_nil, or_false] at hkey
  rcases hkey with rfl | rfl | rfl | rfl | rfl | rfl | rfl | rfl | rfl
  case inr.inr.inr.inr.inr.inr.inr.inr => exact absurd rfl hother
  all_goals simp [store, settingsOver, Value.get?_cons, hnew]

theorem settingsOver_output (s : Settings) (output other : OutputSetting) :
    settingsOver { s with output := other } entries output =
      settingsOver s (("output", v) :: entries) output := by
  simp [settingsOver, Value.get?_cons]

/-- The loop over the entries of a document that has no other keys than those of settings. -/
theorem foldlM_assign_eq (s : Settings) (hkeys : ∀ e ∈ entries, e.1 ∈ settingKeys)
    (hnodup : (entries.map Prod.fst).Nodup) :
    entries.foldlM (fun s e => s.assign e.1 e.2) s =
      (outputOver s.output (get? "output" entries)).map (settingsOver s entries) := by
  induction entries generalizing s with
  | nil => rfl
  | cons e rest ih =>
    obtain ⟨key, v⟩ := e
    rw [List.forall_mem_cons] at hkeys
    rw [List.map_cons, List.nodup_cons] at hnodup
    have hnew : get? key rest = none := Value.get?_eq_none hnodup.1
    rw [List.foldlM_cons]
    by_cases houtput : key = "output"
    · subst houtput
      rw [assign_output, Value.get?_cons, if_pos rfl]
      cases outputOver s.output (some v) with
      | error e => rfl
      | ok output =>
        refine (ih { s with output } hkeys.2 hnodup.2).trans ?_
        rw [hnew]
        exact congrArg Except.ok (settingsOver_output s output output)
    · rw [assign_of_setting s hkeys.1 houtput, Value.get?_cons, if_neg (Ne.symm houtput)]
      refine (ih (s.store key v) hkeys.2 hnodup.2).trans ?_
      rw [(settingsOver_store s s.output hkeys.1 houtput hnew).1]
      congr 1
      funext output
      exact (settingsOver_store s output hkeys.1 houtput hnew).2

/-! ## When reading fails -/

theorem ofText_eq_error_iff {text : String} {e : Error} :
    OutputMode.ofText text = .error e ↔
      (text ≠ "error" ∧ text ≠ "force") ∧ e = .unknownOutputMode text := by
  rw [OutputMode.ofText, OutputMode.ofText?.eq_def]
  by_cases herror : text = "error"
  · subst herror
    simp
  · by_cases hforce : text = "force"
    · subst hforce
      simp
    · simp [herror, hforce, eq_comm]

theorem readMode_eq_error_iff {mode : Option Value} {e : Error} :
    readMode mode = .error e ↔
      ∃ text, mode = some (.text text) ∧ (text ≠ "error" ∧ text ≠ "force") ∧
        e = .unknownOutputMode text := by
  rw [readMode.eq_def]
  split
  · simp
  · rw [map_eq_error_iff, ofText_eq_error_iff]
    simp
  · rename_i v hnoText
    simp only [reduceCtorEq, false_iff, Option.some.injEq]
    rintro ⟨text, rfl, -⟩
    exact hnoText text rfl

/-- Of the `output` entries only the mode can be wrong. -/
theorem readOutput_eq (entries : List (String × Value)) :
    readOutput entries = (readMode (get? "mode" entries)).map fun mode => {
      mode
      validate := (get? "validate_before_write" entries).getD (.bool true)
      atomic := (get? "atomic_write" entries).getD (.bool true) } := by
  rw [readOutput]
  cases readMode (get? "mode" entries) <;> rfl

/-- The document asks for a mode that there is not. -/
def AsksUnknownMode (entries : List (String × Value)) (text : String) : Prop :=
  documentMode? (.object entries) = some (.text text) ∧ text ≠ "error" ∧ text ≠ "force"

theorem outputOver_eq_error_iff {current : OutputSetting} {e : Error} :
    outputOver current (get? "output" entries) = .error e ↔
      ∃ text, AsksUnknownMode entries text ∧ e = .unknownOutputMode text := by
  simp only [AsksUnknownMode, documentMode?]
  cases houtput : get? "output" entries with
  | none => simp [outputOver]
  | some v =>
    cases v with
    | object output =>
      simp only [outputOver, readOutput_eq, map_eq_error_iff, readMode_eq_error_iff, and_assoc]
    | _ => simp [outputOver]

/-! ## When listing fails -/

/-- The document has an `output` entry that is no object, or one with a mode that is no text. -/
def HasNoMode (entries : List (String × Value)) : Prop :=
  (∃ v, get? "output" entries = some v ∧ ∀ output, v ≠ .object output) ∨
    ∃ v, documentMode? (.object entries) = some v ∧ ∀ text, v ≠ .text text

/-- A mode that has been read is a known one, unless the entry is no text. -/
theorem readMode_eq_ok {mode : Option Value} {setting : ModeSetting}
    (h : readMode mode = .ok setting) :
    (∃ m : OutputMode, setting = .mode m ∧ mode.getD (.text "error") = .text m.text) ∨
      ∃ v, mode = some v ∧ (∀ text, v ≠ .text text) ∧ setting = .other v := by
  rw [readMode.eq_def] at h
  split at h
  · exact Or.inl ⟨.refuse, (Except.ok.inj h).symm, rfl⟩
  · obtain ⟨m, hm, rfl⟩ := exists_of_map_eq_ok h
    exact Or.inl ⟨m, rfl, congrArg Value.text (OutputMode.text_of_ofText hm).symm⟩
  · rename_i v hnoText
    exact Or.inr ⟨v, rfl, fun text heq => hnoText text heq, (Except.ok.inj h).symm⟩

/-! ## The listing that a document asks for -/

/-- The `output` settings as they are listed if nothing has been set. -/
def defaultOutput : List (String × Value) :=
  [("mode", .text "error"), ("validate_before_write", .bool true), ("atomic_write", .bool true)]

/-- All settings as they are listed if nothing has been set. -/
def defaultEntries : List (String × Value) := [
  ("marker_namespace", .text "ReactiveObject.Generators"),
  ("marker_name", .text "ReactivePropertyAttribute"),
  ("notify_method", .text "RaiseAndSetIfChanged"),
  ("artifact_suffix", .text "ReactiveProperty.g.cs"),
  ("marker_artifact_name", .text "ReactivePropertyAttribute.g.cs"),
  ("qualify_artifact_names", .bool true),
  ("embed_marker_source", .bool false),
  ("add_generation_comment", .bool true),
  ("output", .object defaultOutput)]

theorem toEntries_default : toEntries {} = .ok defaultEntries := rfl

/-- The base entries, with the values of other entries where these have the same key. -/
def overlay (base entries : List (String × Value)) : List (String × Value) :=
  base.map fun e => (e.1, (get? e.1 entries).getD e.2)

/-- A default with a value over it: an object is put over an object entry by entry. -/
def valueOver : (base : Value) → Option Value → Value
  | .object base, some (.object entries) => .object (overlay base entries)
  | base, v => v.getD base

/-- The listing of the defaults with the values of a document over them. -/
def overDefaults (entries : List (String × Value)) : List (String × Value) :=
  defaultEntries.map fun e => (e.1, valueOver e.2 (get? e.1 entries))

theorem overDefaults_eq (entries : List (String × Value)) :
    overDefaults entries = [
      ("marker_namespace",
        (get? "marker_namespace" entries).getD (.text "ReactiveObject.Generators")),
      ("marker_name", (get? "marker_name" entries).getD (.text "ReactivePropertyAttribute")),
      ("notify_method", (get? "notify_method" entries).getD (.text "RaiseAndSetIfChanged")),
      ("artifact_suffix", (get? "artifact_suffix" entries).getD (.text "ReactiveProperty.g.cs")),
      ("marker_artifact_name",
        (get? "marker_artifact_name" entries).getD (.text "ReactivePropertyAttribute.g.cs")),
      ("qualify_artifact_names", (get? "qualify_artifact_names" entries).getD (.bool true)),
      ("embed_marker_source", (get? "embed_marker_source" entries).getD (.bool false)),
      ("add_generation_comment", (get? "add_generation_comment" entries).getD (.bool true)),
      ("output", valueOver (.object defaultOutput) (get? "output" entries))] := rfl

/-- An `output` setting that has been read is listed as the document asks for it, or not at all. -/
theorem listOutput_outputOver {output : OutputSetting}
    (h : outputOver (.settings {}) (get? "output" entries) = .ok output) :
    (¬HasNoMode entries ∧
        listOutput output = .ok (valueOver (.object defaultOutput) (get? "output" entries))) ∨
      HasNoMode entries ∧ listOutput output = .error (.setting .noOutputMode) := by
  simp only [HasNoMode, documentMode?]
  cases houtput : get? "output" entries with
  | none =>
    rw [houtput] at h
    cases h
    exact Or.inl ⟨by simp, rfl⟩
  | some v =>
    rw [houtput] at h
    cases v with
    | object own =>
      rw [outputOver, readOutput_eq] at h
      obtain ⟨settings, hsettings, rfl⟩ := exists_of_map_eq_ok h
      obtain ⟨mode, hmode, rfl⟩ := exists_of_map_eq_ok hsettings
      rcases readMode_eq_ok hmode with ⟨m, rfl, hm⟩ | ⟨v, hv, hnoText, rfl⟩
      · refine Or.inl ⟨?_, ?_⟩
        · rintro (⟨v, hv, hother⟩ | ⟨v, hv, hnoText⟩)
          · exact hother own (Option.some.inj hv).symm
          · replace hv : get? "mode" own = some v := hv
            rw [hv] at hm
            exact hnoText m.text hm
        · simp [listOutput, valueOver, overlay, defaultOutput, hm]
      · exact Or.inr ⟨Or.inr ⟨v, hv, hnoText⟩, rfl⟩
    | _ =>
      cases h
      exact Or.inr ⟨Or.inl ⟨_, rfl, by simp⟩, rfl⟩

/-! ## Reading and listing -/

/-- What has been listed reads as the same settings. -/
theorem ofEntries_listed {s : Settings} {listed : List (String × Value)}
    (h : s.toEntries = .ok listed) : ofEntries listed = .ok s := by
  rw [toEntries] at h
  split at h
  · cases h
  · rename_i hshown
    obtain ⟨v, hlist, heq⟩ := exists_of_bind_eq_ok h
    cases heq
    rw [listOutput.eq_def] at hlist
    split at hlist
    · rename_i m validate atomic houtput
      cases hlist
      obtain ⟨space, name, method, suffix, marker, qualify, embed, banner, output, hidden⟩ := s
      obtain rfl : output = .settings ⟨.mode m, validate, atomic⟩ := houtput
      obtain rfl : hidden = false := Bool.eq_false_iff.mpr hshown
      cases m <;> rfl
    · cases hlist

/-- Settings over the defaults are listed as the defaults with the values over them, if their
`output` is. -/
theorem toEntries_settingsOver {output : OutputSetting}
    (h : listOutput output = .ok (valueOver (.object defaultOutput) (get? "output" entries))) :
    (settingsOver {} entries output).toEntries = .ok (overDefaults entries) := by
  simp only [toEntries, settingsOver, h, overDefaults_eq, Bool.false_eq_true, if_false]
  rfl

theorem toEntries_eq_error {s : Settings} {e : Error} (hshown : s.listingHidden = false)
    (h : listOutput s.output = .error e) : s.toEntries = .error e := by
  rw [toEntries, hshown, h]
  rfl

/-- A document that has no other keys than those of settings is refused exactly if it asks for a
mode that there is not.  The settings that are read from it can be listed unless its `output` entry
or the mode there is of the wrong kind.  The listing reads as the same settings, and it is that of
the defaults with the values of the document over them. -/
theorem ofEntries_roundTrip (hkeys : ∀ e ∈ entries, e.1 ∈ settingKeys)
    (hnodup : (entries.map Prod.fst).Nodup) :
    toEntries {} = .ok defaultEntries ∧
      (∀ e, ofEntries entries = .error e ↔
        ∃ text, AsksUnknownMode entries text ∧ e = .unknownOutputMode text) ∧
      ∀ s, ofEntries entries = .ok s →
        (∀ e, s.toEntries = .error e ↔ HasNoMode entries ∧ e = .setting .noOutputMode) ∧
        ∀ listed, s.toEntries = .ok listed →
          ofEntries listed = .ok s ∧ listed = overDefaults entries := by
  have hread : ofEntries entries =
      (outputOver (.settings {}) (get? "output" entries)).map (settingsOver {} entries) :=
    foldlM_assign_eq {} hkeys hnodup
  refine ⟨toEntries_default, fun e => ?_, fun s hs => ?_⟩
  · rw [hread, map_eq_error_iff, outputOver_eq_error_iff]
  · rw [hread] at hs
    obtain ⟨output, houtput, rfl⟩ := exists_of_map_eq_ok hs
    rcases listOutput_outputOver houtput with ⟨hmode, hlist⟩ | ⟨hmode, hlist⟩
    · have hentries := toEntries_settingsOver hlist
      refine ⟨fun e => ?_, fun listed hlisted => ⟨ofEntries_listed hlisted, ?_⟩⟩
      · simp [hentries, hmode]
      · rw [hentries] at hlisted
        exact (Except.ok.inj hlisted).symm
    · have hentries : (settingsOver {} entries output).toEntries =
          .error (.setting .noOutputMode) := toEntries_eq_error rfl hlist
      refine ⟨fun e => ?_, fun listed hlisted => ?_⟩
      · simp [hentries, hmode, eq_comm]
      · rw [hentries] at hlisted
        cases hlisted

/-- A document in an order of its own, with a number for a name, nothing for a flag, and an unknown
key among the `output` entries. -/
theorem ofEntries_roundTrip_forced :
    let entries : List (String × Value) := [
      ("output", .object [("atomic_write", .null), ("color", .int 3), ("mode", .text "force")]),
      ("marker_name", .int 5)]
    (∀ e ∈ entries, e.1 ∈ settingKeys) ∧ (entries.map Prod.fst).Nodup ∧
      ∃ s listed, ofEntries entries = .ok s ∧ s.toEntries = .ok listed ∧
        ofEntries listed = .ok s ∧ listed = overDefaults entries := by
  intro entries
  have hkeys : ∀ e ∈ entries, e.1 ∈ settingKeys := by decide
  have hnodup : (entries.map Prod.fst).Nodup := by decide
  have hread : ∃ s, ofEntries entries = .ok s ∧ ∃ listed, s.toEntries = .ok listed :=
    ⟨_, rfl, _, rfl⟩
  obtain ⟨s, hs, listed, hlisted⟩ := hread
  have hboth := ((ofEntries_roundTrip hkeys hnodup).2.2 s hs).2 listed hlisted
  exact ⟨hkeys, hnodup, s, listed, hs, hlisted, hboth.1, hboth.2⟩

end Settings

end Backfield
