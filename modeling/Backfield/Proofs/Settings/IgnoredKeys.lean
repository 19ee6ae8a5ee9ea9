import Backfield.Settings

/-!
# Keys that are skipped

A key that names no setting is to make no difference, whatever its value is and wherever it
stands.  That holds of every text but four reserved keys.

* `assign_of_isSkipped` is one step: a key that is neither a setting nor reserved leaves the
  settings as they are.
* `ofEntries_without` is the run over all entries.
* `readsAlike_without_iff` says which keys can be taken out of every list of entries, and
  `not_readsAlike_hiddenListing` is a reserved key that cannot.
-/

namespace Backfield.Settings

/-! ## Kinds of keys -/

/-- The keys of the nine settings. -/
def settingKeys : List String :=
  ["marker_namespace", "marker_name", "notify_method", "artifact_suffix", "marker_artifact_name",
    "qualify_artifact_names", "embed_marker_source", "add_generation_comment", "output"]

/-- The keys that name no setting and are followed all the same. -/
def reservedKeys : List String := ["__class__", "__dict__", "__weakref__", "to_dict"]

/-- The key is neither that of a setting nor reserved. -/
def IsSkipped (key : String) : Prop := key ∉ settingKeys ∧ key ∉ reservedKeys

/-- The entries but those under a key. -/
def without (key : String) (entries : List (String × Value)) : List (String × Value) :=
  entries.filter (·.1 != key)

/-- Two lists of entries are read alike: both are refused for the same reason, or they lead to
equal settings, which can be listed alike and name the same marker. -/
structure ReadsAlike (entries entries' : List (String × Value)) : Prop where
  settings : ofEntries entries = ofEntries entries'
  listing : (ofEntries entries).bind toEntries = (ofEntries entries').bind toEntries
  marker : (ofEntries entries).map markerFullName = (ofEntries entries').map markerFullName

theorem readsAlike_of_eq {entries entries' : List (String × Value)}
    (h : ofEntries entries = ofEntries entries') : ReadsAlike entries entries' :=
  ⟨h, congrArg (·.bind toEntries) h, congrArg (·.map markerFullName) h⟩

/-! ## One entry -/

variable {key : String}

theorem store_of_isSkipped (hkey : IsSkipped key) (s : Settings) (v : Value) :
    s.store key v = s := by
  obtain ⟨hsetting, hreserved⟩ := hkey
  rw [store.eq_def]
  -- Every branch but the last is that of a setting or of a reserved key.
  split
  case h_11 => rfl
  case h_10 => exact absurd (by decide) hreserved
  all_goals exact absurd (by decide) hsetting

theorem assign_of_isSkipped (hkey : IsSkipped key) (s : Settings) (v : Value) :
    s.assign key v = .ok s := by
  have hreserved := hkey.2
  rw [assign.eq_def]
  split
  case h_1 => exact absurd (by decide) hkey.1
  case h_6 => rw [store_of_isSkipped hkey]
  all_goals exact absurd (by decide) hreserved

/-! ## All entries -/

/-- A key that is skipped makes no difference to what is read, however often and wherever it
stands. -/
theorem ofEntries_without (hkey : IsSkipped key) (entries : List (String × Value)) :
    ofEntries (without key entries) = ofEntries entries := by
  rw [ofEntries, ofEntries, without, List.foldlM_filter]
  congr 1
  funext s entry
  by_cases hentry : entry.1 = key
  · rw [if_neg (by simp [hentry]), hentry, assign_of_isSkipped hkey]
    rfl
  · rw [if_pos (by simpa using hentry)]

/-- Standing alone with nothing as its value, a key of the two lists makes a difference. -/
theorem not_readsAlike_of_mem (hkey : key ∈ settingKeys ++ reservedKeys) :
    ¬ReadsAlike (without key [(key, .null)]) [(key, .null)] := by
  have hdiffers : ∀ key ∈ settingKeys ++ reservedKeys,
      (ofEntries [(key, .null)]).toOption ≠ (ofEntries []).toOption := by
    decide
  intro halike
  have hnone : without key [(key, .null)] = [] := by simp [without]
  rw [hnone] at halike
  exact hdiffers key hkey (congrArg Except.toOption halike.settings.symm)

/-- A key can be taken out of every list of entries, with no difference to what is read, exactly if
it is neither that of a setting nor one of the four reserved ones. -/
theorem readsAlike_without_iff (key : String) :
    (∀ entries, ReadsAlike (without key entries) entries) ↔
      key ∉ settingKeys ∧ key ∉ reservedKeys := by
  constructor
  · intro halike
    rw [← not_or, ← List.mem_append]
    exact fun hkey => not_readsAlike_of_mem hkey (halike _)
  · exact fun hkey entries => readsAlike_of_eq (ofEntries_without hkey entries)

/-- A key with the name of the listing is no setting, and without it the settings can be listed. -/
theorem not_readsAlike_hiddenListing :
    "to_dict" ∉ settingKeys ∧
      (ofEntries [("to_dict", .int 1)]).bind toEntries = .error (.setting .hiddenListing) ∧
      (∃ listed,
        (ofEntries (without "to_dict" [("to_dict", .int 1)])).bind toEntries = .ok listed) ∧
      ¬ReadsAlike (without "to_dict" [("to_dict", .int 1)]) [("to_dict", .int 1)] := by
  have hhidden : (ofEntries [("to_dict", .int 1)]).bind toEntries =
      .error (.setting .hiddenListing) := rfl
  have hlisted : ∃ listed,
      (ofEntries (without "to_dict" [("to_dict", .int 1)])).bind toEntries = .ok listed := ⟨_, rfl⟩
  refine ⟨by decide, hhidden, hlisted, fun halike => ?_⟩
  obtain ⟨listed, hlisted⟩ := hlisted
  rw [halike.listing, hhidden] at hlisted
  cases hlisted

end Backfield.Settings
