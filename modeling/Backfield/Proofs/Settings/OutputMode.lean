import Mathlib.Data.List.Nodup
import Backfield.Json
import Backfield.Settings
import Backfield.Trace

/-!
# Settings that let files be overwritten

Files may be overwritten where the mode of the `output` settings says so.  Of all that a document
can hold, only the text `force` in the right place leads to such settings.

* `nodup_keys_of_parse?`: no key of a document stands twice, so each entry that is assigned is what
  its key stands for.
* `MayOverwrite` says what the settings allow.  `mayOverwrite_of_assign` is the step over one
  entry, and `exists_of_mayOverwrite_foldlM` the loop over all of them.
* `documentMode?_of_mayOverwrite` is the result.
-/

namespace Backfield

/-! ## Keys of a document -/

namespace Value

theorem mem_keys_put {key other : String} {v : Value} {entries : List (String × Value)} :
    other ∈ (put key v entries).map Prod.fst ↔ other = key ∨ other ∈ entries.map Prod.fst := by
  induction entries with
  | nil => simp [put]
  | cons e rest ih =>
    rw [put]
    split
    · rename_i hkey
      rw [List.map_cons, List.map_cons, List.mem_cons, List.mem_cons, beq_iff_eq.mp hkey]
      tauto
    · rw [List.map_cons, List.map_cons, List.mem_cons, List.mem_cons, ih]
      tauto

theorem nodup_keys_put {key : String} {v : Value} {entries : List (String × Value)}
    (h : (entries.map Prod.fst).Nodup) : ((put key v entries).map Prod.fst).Nodup := by
  induction entries with
  | nil => simp [put]
  | cons e rest ih =>
    rw [List.map_cons, List.nodup_cons] at h
    rw [put]
    split
    · rename_i hkey
      rw [List.map_cons, List.nodup_cons, ← beq_iff_eq.mp hkey]
      exact h
    · rename_i hkey
      rw [List.map_cons, List.nodup_cons, mem_keys_put, not_or]
      exact ⟨⟨by simpa using hkey, h.1⟩, ih h.2⟩

/-- If no key stands twice, each entry is found under its key. -/
theorem get?_of_mem {key : String} {v : Value} {entries : List (String × Value)}
    (hkeys : (entries.map Prod.fst).Nodup) (hmem : (key, v) ∈ entries) :
    get? key entries = some v := by
  induction entries with
  | nil => cases hmem
  | cons e rest ih =>
    rw [List.map_cons, List.nodup_cons] at hkeys
    rw [get?, List.lookup_cons]
    rcases List.mem_cons.mp hmem with rfl | hmem
    · rw [beq_self_eq_true]
    · have hne : key ≠ e.1 := fun heq => hkeys.1 (heq ▸ List.mem_map_of_mem hmem)
      rw [beq_eq_false_iff_ne.mpr hne]
      exact ih hkeys.2 hmem

end Value

namespace Json

/-- The entries of an object are put in one by one, so none of its keys stands twice. -/
theorem nodup_keys_entries {fuel : Nat} {done xs : List (String × Value)} {text rest : List Char}
    (hdone : (done.map Prod.fst).Nodup) (h : entries fuel done text = some (xs, rest)) :
    (xs.map Prod.fst).Nodup := by
  induction fuel generalizing done text with
  | zero =>
    rw [entries] at h
    cases h
  | succ fuel ih =>
    rw [entries.eq_def] at h
    dsimp only at h
    split at h
    · simp only [Option.bind_eq_bind, Option.bind_eq_some_iff] at h
      obtain ⟨⟨key, afterKey⟩, -, h⟩ := h
      split at h
      · obtain ⟨⟨v, afterValue⟩, -, h⟩ := Option.bind_eq_some_iff.mp h
        split at h
        · exact ih (Value.nodup_keys_put hdone) h
        · cases h
          exact Value.nodup_keys_put hdone
        · cases h
      · cases h
    · cases h

theorem scalar_ne_object {fuel : Nat} {text rest : List Char} {xs : List (String × Value)} :
    scalar fuel text ≠ some (.object xs, rest) := by
  rw [scalar.eq_def]
  split <;> simp [Option.map_eq_some_iff]

theorem nodup_keys_value {fuel : Nat} {xs : List (String × Value)} {text rest : List Char}
    (h : value fuel text = some (.object xs, rest)) : (xs.map Prod.fst).Nodup := by
  cases fuel with
  | zero =>
    rw [value] at h
    cases h
  | succ fuel =>
    rw [value.eq_def] at h
    dsimp only at h
    split at h
    · split at h
      · cases h
      · obtain ⟨_, -, heq⟩ := Option.map_eq_some_iff.mp h
        cases heq
    · split at h
      · cases h
        exact List.nodup_nil
      · obtain ⟨⟨ys, after⟩, hentries, heq⟩ := Option.map_eq_some_iff.mp h
        cases heq
        have hnone : (([] : List (String × Value)).map Prod.fst).Nodup := List.nodup_nil
        exact nodup_keys_entries hnone hentries
    · exact absurd h scalar_ne_object

theorem nodup_keys_of_parse? {text : String} {xs : List (String × Value)}
    (h : parse? text = some (.object xs)) : (xs.map Prod.fst).Nodup := by
  rw [parse?] at h
  obtain ⟨⟨v, rest⟩, hvalue, h⟩ := Option.bind_eq_some_iff.mp h
  dsimp only at h
  split at h
  · cases h
    exact nodup_keys_value hvalue
  · cases h

end Json

/-- A mode is what its own text stands for. -/
theorem OutputMode.text_of_ofText {text : String} {m : OutputMode} (h : ofText text = .ok m) :
    m.text = text := by
  have hsome : ofText? text = some m := by
    rw [ofText] at h
    split at h
    · rename_i hsome
      rw [hsome, Except.ok.inj h]
    · cases h
  rw [ofText?.eq_def] at hsome
  split at hsome
  · rw [← Option.some.inj hsome]
    rfl
  · rw [← Option.some.inj hsome]
    rfl
  · cases hsome

namespace Settings

/-! ## One entry -/

/-- The settings let files be overwritten. -/
def MayOverwrite (s : Settings) : Prop :=
  ∃ output, s.output = .settings output ∧ output.mode = .mode .overwrite

/-- A value that is stored as it is allows nothing. -/
theorem mayOverwrite_of_store {s : Settings} {key : String} {v : Value}
    (h : (s.store key v).MayOverwrite) : s.MayOverwrite := by
  obtain ⟨output, houtput, hmode⟩ := h
  rw [store.eq_def] at houtput
  split at houtput <;> first
    | exact ⟨output, houtput, hmode⟩
    | cases houtput

theorem not_mayOverwrite_replaceAll (entries : List (String × Value)) :
    ¬(replaceAll entries).MayOverwrite := by
  have hfold : ∀ s : Settings, ¬s.MayOverwrite →
      ¬(entries.foldl (fun s entry => s.store entry.1 entry.2) s).MayOverwrite := by
    induction entries with
    | nil => exact fun _ h => h
    | cons entry rest ih =>
      intro s hs
      exact ih _ fun h => hs (mayOverwrite_of_store h)
  refine hfold _ ?_
  rintro ⟨output, houtput, -⟩
  cases houtput

theorem get?_mode_of_readOutput {entries : List (String × Value)} {output : OutputSettings}
    (h : readOutput entries = .ok output) (hmode : output.mode = .mode .overwrite) :
    Value.get? "mode" entries = some (.text "force") := by
  obtain ⟨mode, hread, houtput⟩ := exists_of_bind_eq_ok h
  obtain rfl := Except.ok.inj houtput
  obtain rfl : mode = .mode .overwrite := hmode
  rw [readMode.eq_def] at hread
  split at hread
  · cases hread
  · rename_i text htext
    obtain ⟨m, hof, hm⟩ := exists_of_map_eq_ok hread
    cases hm
    rw [htext, ← OutputMode.text_of_ofText hof]
    rfl
  · cases hread

/-- An entry allows overwriting by its `output` mode alone. -/
theorem mayOverwrite_of_assign {s s' : Settings} {key : String} {v : Value}
    (h : s.assign key v = .ok s') (hs' : s'.MayOverwrite) :
    s.MayOverwrite ∨ ∃ output, (key, v) = ("output", .object output) ∧
      Value.get? "mode" output = some (.text "force") := by
  rw [assign.eq_def] at h
  split at h
  · obtain ⟨output, hread, houtput⟩ := exists_of_bind_eq_ok h
    cases houtput
    obtain ⟨output', heq, hmode⟩ := hs'
    cases heq
    exact Or.inr ⟨_, rfl, get?_mode_of_readOutput hread hmode⟩
  · cases h
    exact absurd hs' (not_mayOverwrite_replaceAll _)
  · cases h
  · cases h
  · cases h
  · cases h
    exact Or.inl (mayOverwrite_of_store hs')

/-! ## All entries -/

theorem exists_of_mayOverwrite_foldlM {entries : List (String × Value)} {s s' : Settings}
    (h : entries.foldlM (fun s entry => s.assign entry.1 entry.2) s = .ok s')
    (hs' : s'.MayOverwrite) :
    s.MayOverwrite ∨ ∃ output, ("output", .object output) ∈ entries ∧
      Value.get? "mode" output = some (.text "force") := by
  induction entries generalizing s with
  | nil =>
    cases h
    exact Or.inl hs'
  | cons entry rest ih =>
    rw [List.foldlM_cons] at h
    obtain ⟨between, hassign, hrest⟩ := exists_of_bind_eq_ok h
    rcases ih hrest with hbetween | ⟨output, hmem, hmode⟩
    · rcases mayOverwrite_of_assign hassign hbetween with hs | ⟨output, heq, hmode⟩
      · exact Or.inl hs
      · exact Or.inr ⟨output, heq ▸ List.mem_cons_self, hmode⟩
    · exact Or.inr ⟨output, List.mem_cons_of_mem _ hmem, hmode⟩

theorem not_mayOverwrite_default : ¬({} : Settings).MayOverwrite := by
  rintro ⟨output, houtput, hmode⟩
  cases houtput
  cases hmode

/-- The mode in the `output` object of a settings document. -/
def documentMode? : Value → Option Value
  | .object entries =>
    match Value.get? "output" entries with
    | some (.object output) => Value.get? "mode" output
    | _ => none
  | _ => none

/-- Settings that have been read let files be overwritten only if their document says so. -/
theorem documentMode?_of_mayOverwrite {text : String} {document : Value} {s : Settings}
    (hparse : Json.parse? text = some document) (h : ofValue document = .ok s)
    (hs : s.MayOverwrite) : documentMode? document = some (.text "force") := by
  cases document with
  | object entries =>
    rcases exists_of_mayOverwrite_foldlM h hs with hnever | ⟨output, hmem, hmode⟩
    · exact absurd hnever not_mayOverwrite_default
    · have houtput := Value.get?_of_mem (Json.nodup_keys_of_parse? hparse) hmem
      simp only [documentMode?, houtput, hmode]
  | _ => cases h

/-! ## Settings that can be listed -/

/-- Settings that can be listed and allow no overwriting refuse it. -/
theorem exists_refuse_of_toEntries {s : Settings} {listed : List (String × Value)}
    (h : s.toEntries = .ok listed) (hs : ¬s.MayOverwrite) :
    ∃ output, s.output = .settings output ∧ output.mode = .mode .refuse := by
  rw [toEntries] at h
  split at h
  · cases h
  · obtain ⟨v, hlist, -⟩ := exists_of_bind_eq_ok h
    rw [listOutput.eq_def] at hlist
    split at hlist
    · rename_i mode validate atomic houtput
      cases mode with
      | refuse => exact ⟨_, houtput, rfl⟩
      | overwrite => exact absurd ⟨_, houtput, rfl⟩ hs
    · cases hlist

end Settings

end Backfield
