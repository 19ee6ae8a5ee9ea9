import Mathlib.Data.List.Nodup
import Mathlib.Data.List.Perm.Subperm
import Backfield.Proofs.Disk.Tree

/-!
# Temporary files

A file that is written by way of a temporary one ends up as if it had been written at once, on any
disk and for any path: the temporary file takes no one's place, no path leads elsewhere because of
it, and it leaves no trace in the list of entries.

* `get?_temporaryKey` says that a temporary file takes no one's place.  There is one name more
  than there are entries, so one of the names is free.
* `locate_of_keepsDirectories` says that a path that leads somewhere goes on leading there as long
  as directories stay directories, and `locate_put_beside` that a new file in the directory of a
  path changes nothing about where the path leads, also if it leads nowhere.
* `erase_put` and `erase_put_put` are the changes of the entries.
* `writeAtomically_eq_writeBytes` is the result.
-/

namespace Backfield.Disk

variable {disk disk' disk'' : Disk} {cwd key source : Key} {p : Path} {bytes : List UInt8}

/-! ## Names of temporary files -/

theorem temporaryName_injective (name : String) : Function.Injective (temporaryName name) := by
  intro m n heq
  rw [temporaryName, temporaryName, String.append_left_inj, String.append_right_inj] at heq
  have hdigits : Nat.toDigits 10 m = Nat.toDigits 10 n := by
    have hlist := congrArg String.toList heq
    simpa [toString, Nat.toList_repr] using hlist
  rw [← Nat.ofDigitChars_ten_toDigits (n := m), hdigits, Nat.ofDigitChars_ten_toDigits]

/-- A temporary name is longer than the name it is for. -/
theorem temporaryName_ne (name : String) (n : Nat) : temporaryName name n ≠ name := by
  intro heq
  have hlength := congrArg String.length heq
  simp only [temporaryName, String.length_append] at hlength
  have hdot : ".".length = 1 := rfl
  omega

theorem exists_temporaryKey_eq (disk : Disk) (directory : Key) (name : String) :
    ∃ n, disk.temporaryKey directory name = directory ++ [temporaryName name n] := by
  rw [temporaryKey]
  cases hfound : ((List.range disk.entries.length).map fun n =>
      directory ++ [temporaryName name n]).find? fun key => (disk.get? key).isNone with
  | none => exact ⟨disk.entries.length, rfl⟩
  | some key =>
    obtain ⟨n, -, hkey⟩ := List.mem_map.mp (List.mem_of_find?_eq_some hfound)
    exact ⟨n, hkey.symm⟩

/-- Nothing stands where a temporary file is put. -/
theorem get?_temporaryKey (disk : Disk) (directory : Key) (name : String) :
    disk.get? (disk.temporaryKey directory name) = none := by
  rw [temporaryKey]
  cases hfound : ((List.range disk.entries.length).map fun n =>
      directory ++ [temporaryName name n]).find? fun key => (disk.get? key).isNone with
  | some key =>
    have hnone := List.find?_some hfound
    exact Option.isNone_iff_eq_none.mp hnone
  | none =>
    by_contra hsome
    have hsome' : disk.get? (directory ++ [temporaryName name disk.entries.length]) ≠ none := hsome
    rw [List.find?_eq_none] at hfound
    have hnodup : ((List.range (disk.entries.length + 1)).map fun n =>
        directory ++ [temporaryName name n]).Nodup := by
      refine List.Nodup.map (fun m n heq => temporaryName_injective name ?_) List.nodup_range
      simpa using heq
    have hsubset : ((List.range (disk.entries.length + 1)).map fun n =>
        directory ++ [temporaryName name n]) ⊆ disk.entries.map Prod.fst := by
      intro key hkey
      obtain ⟨n, hn, rfl⟩ := List.mem_map.mp hkey
      refine mem_keys_of_get? (by simp) (Option.isSome_iff_ne_none.mpr fun hnone => ?_)
      rcases Nat.lt_succ_iff_lt_or_eq.mp (List.mem_range.mp hn) with hlt | rfl
      · refine hfound _ (List.mem_map_of_mem (List.mem_range.mpr hlt)) ?_
        rw [hnone]
        rfl
      · exact hsome' hnone
    have hlength := (List.subperm_of_subset hnodup hsubset).length_le
    rw [List.length_map, List.length_map, List.length_range] at hlength
    omega

/-! ## Directories that stay -/

/-- What is a directory of the first disk is one of the second. -/
def KeepsDirectories (disk disk' : Disk) : Prop :=
  ∀ key, disk.get? key = some .directory → disk'.get? key = some .directory

theorem KeepsDirectories.trans (h : KeepsDirectories disk disk')
    (h' : KeepsDirectories disk' disk'') : KeepsDirectories disk disk'' :=
  fun key hkey => h' key (h key hkey)

theorem walk_of_keepsDirectories (hkeeps : KeepsDirectories disk disk') {here : Key}
    {parts : List String} (hwalk : disk.walk here parts = .ok key) :
    disk'.walk here parts = .ok key := by
  induction parts generalizing here with
  | nil => exact hwalk
  | cons part rest ih =>
    rw [walk] at hwalk ⊢
    split at hwalk
    · cases hwalk
    · cases hwalk
    · rename_i hhere
      rw [hkeeps here hhere]
      show (if part == ".." then _ else _) = _
      split at hwalk
      · rename_i hpart
        rw [if_pos hpart]
        exact ih hwalk
      · rename_i hpart
        rw [if_neg hpart]
        exact ih hwalk

/-- A path goes on leading where it leads. -/
theorem locate_of_keepsDirectories (hkeeps : KeepsDirectories disk disk')
    (hlocate : disk.locate cwd p = .ok key) : disk'.locate cwd p = .ok key :=
  walk_of_keepsDirectories hkeeps hlocate

/-! ## The last component of a path -/

/-- Components lead to a key if those in front lead to one and the others on from there. -/
theorem walk_append (disk : Disk) (here : Key) (parts more : List String) :
    disk.walk here (parts ++ more) =
      (disk.walk here parts).bind fun key => disk.walk key more := by
  induction parts generalizing here with
  | nil => rfl
  | cons part rest ih =>
    rw [List.cons_append, walk, walk]
    cases disk.get? here with
    | none => rfl
    | some entry =>
      cases entry with
      | file bytes => rfl
      | directory =>
        show (if part == ".." then _ else _) = Except.bind (if part == ".." then _ else _) _
        split
        · exact ih _
        · exact ih _

/-- One component leads on from a directory only, up or down. -/
theorem walk_singleton {here : Key} {part : String} (hwalk : disk.walk here [part] = .ok key) :
    (part = ".." ∧ key = here.dropLast) ∨ (part ≠ ".." ∧ key = here ++ [part]) := by
  rw [walk] at hwalk
  split at hwalk
  · cases hwalk
  · cases hwalk
  · split at hwalk
    · rename_i hpart
      exact Or.inl ⟨beq_iff_eq.mp hpart, (Except.ok.inj hwalk).symm⟩
    · rename_i hpart
      exact Or.inr ⟨fun heq => hpart (beq_iff_eq.mpr heq), (Except.ok.inj hwalk).symm⟩

/-- A path without components is its own directory.  Any other path leads on from its directory
by its last component, which is its name. -/
theorem parent_cases (p : Path) :
    (p.parts = [] ∧ p.parent = p) ∨
      ∀ (disk : Disk) (cwd : Key), disk.locate cwd p =
        (disk.locate cwd p.parent).bind fun directory => disk.walk directory [p.name] := by
  rcases List.eq_nil_or_concat' p.parts with hnil | ⟨above, part, hparts⟩
  · refine Or.inl ⟨hnil, ?_⟩
    rw [Path.parent, hnil, List.dropLast_nil, ← hnil]
  · refine Or.inr fun disk cwd => ?_
    rw [Path.name, locate, locate, Path.parent, hparts, List.dropLast_concat,
      List.getLast?_concat, walk_append]
    rfl

/-! ## A file beside the path -/

/-- What is no directory is not the root. -/
theorem ne_nil_of_not_directory (h : disk.get? key ≠ some .directory) : key ≠ [] := by
  rintro rfl
  exact h rfl

theorem ne_nil_of_get?_eq_none (hnone : disk.get? key = none) : key ≠ [] := by
  have hother : disk.get? key ≠ some .directory := by simp [hnone]
  exact ne_nil_of_not_directory hother

theorem keepsDirectories_put (hfree : disk.get? source = none) (entry : Entry) :
    KeepsDirectories disk (disk.put source entry) := by
  intro key hkey
  rw [get?_put (ne_nil_of_get?_eq_none hfree), if_neg]
  · exact hkey
  · rintro rfl
    rw [hfree] at hkey
    cases hkey

/-- Something new that is not the directory of a path changes nothing about where the path
leads. -/
theorem locate_put_beside {directory : Key} (hparent : disk.locate cwd p.parent = .ok directory)
    (hfree : disk.get? source = none) (hne : directory ≠ source) (entry : Entry) :
    (disk.put source entry).locate cwd p = disk.locate cwd p := by
  have hparent' := locate_of_keepsDirectories (keepsDirectories_put hfree entry) hparent
  rcases parent_cases p with ⟨-, hself⟩ | hlast
  · rw [hself] at hparent hparent'
    rw [hparent, hparent']
  · have hsame : (disk.put source entry).get? directory = disk.get? directory := by
      rw [get?_put (ne_nil_of_get?_eq_none hfree), if_neg hne]
    rw [hlast, hlast, hparent, hparent', Except.bind, Except.bind, walk, walk, hsame]
    rfl

/-- The place of a temporary file is not the place that the path leads to: it is longer, or its
last component is. -/
theorem ne_temporaryKey_of_locate {directory : Key} {n : Nat}
    (hparent : disk.locate cwd p.parent = .ok directory) (hlocate : disk.locate cwd p = .ok key) :
    key ≠ directory ++ [temporaryName p.name n] := by
  intro heq
  have hlength := congrArg List.length heq
  rw [List.length_append, List.length_singleton] at hlength
  rcases parent_cases p with ⟨-, hself⟩ | hlast
  · rw [hself, hlocate] at hparent
    rw [Except.ok.inj hparent] at hlength
    omega
  · rw [hlast, hparent] at hlocate
    rcases walk_singleton hlocate with ⟨-, hup⟩ | ⟨-, hdown⟩
    · rw [hup, List.length_dropLast] at hlength
      omega
    · rw [hdown, List.append_cancel_left_eq, List.cons.injEq] at heq
      exact temporaryName_ne p.name n heq.1.symm

/-! ## Entries -/

theorem ne_of_mem_entries (hfree : disk.get? source = none) :
    ∀ e ∈ disk.entries, e.1 ≠ source := by
  rintro e he rfl
  rw [get?, if_neg (by simpa using ne_nil_of_get?_eq_none hfree)] at hfree
  have hsome := lookup_isSome_of_mem he
  rw [hfree] at hsome
  cases hsome

/-- A new entry is the last one. -/
theorem putEntry_of_not_mem {entries : List (Key × Entry)} (hnew : ∀ e ∈ entries, e.1 ≠ source)
    (entry : Entry) : putEntry source entry entries = entries ++ [(source, entry)] := by
  induction entries with
  | nil => rfl
  | cons e rest ih =>
    rw [List.forall_mem_cons] at hnew
    rw [putEntry, if_neg (by simpa using hnew.1), ih hnew.2, List.cons_append]

theorem filter_of_not_mem {entries : List (Key × Entry)} (hnew : ∀ e ∈ entries, e.1 ≠ source) :
    entries.filter (·.1 != source) = entries := by
  rw [List.filter_eq_self]
  exact fun e he => bne_iff_ne.mpr (hnew e he)

/-- An entry put elsewhere does not mind a temporary one at the end. -/
theorem filter_putEntry_concat {entries : List (Key × Entry)}
    (hnew : ∀ e ∈ entries, e.1 ≠ source) (hne : key ≠ source) (temporary entry : Entry) :
    (putEntry key entry (entries ++ [(source, temporary)])).filter (·.1 != source) =
      putEntry key entry entries := by
  induction entries with
  | nil => simp [putEntry, hne, Ne.symm hne]
  | cons e rest ih =>
    rw [List.forall_mem_cons] at hnew
    rw [List.cons_append, putEntry, putEntry]
    split
    · rw [List.filter_cons_of_pos (by simpa using hne), List.filter_append,
        filter_of_not_mem hnew.2]
      simp
    · rw [List.filter_cons_of_pos (by simpa using hnew.1), ih hnew.2]

/-- What is put where nothing was and taken away again leaves no trace. -/
theorem erase_put (hfree : disk.get? source = none) (entry : Entry) :
    (disk.put source entry).erase source = disk := by
  have hnew := ne_of_mem_entries hfree
  rw [put, erase, putEntry_of_not_mem hnew, List.filter_append, filter_of_not_mem hnew]
  simp

/-- Nor does it if something else is put elsewhere in between. -/
theorem erase_put_put (hfree : disk.get? source = none) (hne : key ≠ source)
    (temporary entry : Entry) :
    ((disk.put source temporary).put key entry).erase source = disk.put key entry := by
  have hnew := ne_of_mem_entries hfree
  rw [put, put, erase, putEntry_of_not_mem hnew, filter_putEntry_concat hnew hne]
  rfl

/-! ## Both ways of writing -/

/-- A file that is written by way of a temporary one ends up as if it had been written at once. -/
theorem writeAtomically_eq_writeBytes (disk : Disk) (cwd : Key) (p : Path) (bytes : List UInt8) :
    disk.writeAtomically cwd p bytes = disk.writeBytes cwd p bytes := by
  rw [writeAtomically, writeBytes]
  cases hparent : disk.locate cwd p.parent with
  | error fault =>
    have hlocate : disk.locate cwd p = .error fault := by
      rcases parent_cases p with ⟨-, hself⟩ | hlast
      · rwa [hself] at hparent
      · rw [hlast, hparent]
        rfl
    rw [hlocate]
  | ok directory =>
    dsimp only
    obtain ⟨n, hsource⟩ := exists_temporaryKey_eq disk directory p.name
    have hfree := get?_temporaryKey disk directory p.name
    generalize disk.temporaryKey directory p.name = source at hsource hfree ⊢
    have hne : directory ≠ source := by simp [hsource]
    rw [locate_put_beside hparent hfree hne]
    cases hlocate : disk.locate cwd p with
    | error fault =>
      show (⟨_, _⟩ : Change) = ⟨_, _⟩
      rw [erase_put hfree]
    | ok key =>
      have hother : key ≠ source := by
        rw [hsource]
        exact ne_temporaryKey_of_locate hparent hlocate
      have hsame : (disk.put source (.file bytes)).get? key = disk.get? key := by
        rw [get?_put (ne_nil_of_get?_eq_none hfree), if_neg hother]
      simp only [bind, Except.bind, moveFile, hsame]
      cases disk.get? key with
      | none => simp only [erase_put_put hfree hother]
      | some entry =>
        cases entry with
        | directory => simp only [erase_put hfree]
        | file old => simp only [erase_put_put hfree hother]

end Backfield.Disk
