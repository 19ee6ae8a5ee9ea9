import Backfield.Proofs.Disk.Files

/-!
# Places that paths lead to

On a disk that need not be a tree, and for a path that may hold double dots, there is little to
say about where the path leads.  But whatever is written, directories stay directories, so a path
that leads somewhere goes on leading there.  This module says what successful changes do in these
terms.

* `makesWay_makeDirectories` says that making directories makes no others than those on the way
  to its path, however it ends.
* `placesFile_writeBytes` says what is there after a file has been written.
-/

namespace Backfield

/-- The first path is the second without some components at its end, perhaps none. -/
def Path.LeadsTo (q p : Path) : Prop := q.root = p.root ∧ q.parts <+: p.parts

theorem Path.LeadsTo.refl (p : Path) : p.LeadsTo p := ⟨rfl, List.prefix_rfl⟩

theorem Path.LeadsTo.trans {o q p : Path} (hoq : o.LeadsTo q) (hqp : q.LeadsTo p) : o.LeadsTo p :=
  ⟨hoq.1.trans hqp.1, hoq.2.trans hqp.2⟩

namespace Disk

variable {disk disk' disk'' : Disk} {cwd key : Key} {p q : Path} {bytes : List UInt8}

/-! ## Directories that are made -/

/-- Nothing was at the key, and now a directory is there.  It is on the way to the path. -/
def IsMadeFor (disk disk' : Disk) (cwd : Key) (p : Path) (key : Key) : Prop :=
  disk.get? key = none ∧ disk'.get? key = some .directory ∧
    ∃ q : Path, q.LeadsTo p ∧ disk'.locate cwd q = .ok key

/-- Nothing has changed but that directories on the way to the path have been made. -/
def MakesWay (disk disk' : Disk) (cwd : Key) (p : Path) : Prop :=
  ∀ key, disk'.get? key = disk.get? key ∨ IsMadeFor disk disk' cwd p key

theorem MakesWay.refl (disk : Disk) (cwd : Key) (p : Path) : MakesWay disk disk cwd p :=
  fun _ => Or.inl rfl

theorem MakesWay.get?_of_some (hway : MakesWay disk disk' cwd p) {entry : Entry}
    (hentry : disk.get? key = some entry) : disk'.get? key = some entry := by
  rcases hway key with hsame | ⟨hnone, -⟩
  · rw [hsame, hentry]
  · rw [hentry] at hnone
    cases hnone

theorem MakesWay.keepsDirectories (hway : MakesWay disk disk' cwd p) :
    KeepsDirectories disk disk' :=
  fun _ hkey => hway.get?_of_some hkey

theorem MakesWay.mono (hway : MakesWay disk disk' cwd q) (hq : q.LeadsTo p) :
    MakesWay disk disk' cwd p := by
  intro key
  rcases hway key with hsame | ⟨hnone, hnew, o, ho, hlocate⟩
  · exact Or.inl hsame
  · exact Or.inr ⟨hnone, hnew, o, ho.trans hq, hlocate⟩

theorem MakesWay.trans (h : MakesWay disk disk' cwd p) (h' : MakesWay disk' disk'' cwd p) :
    MakesWay disk disk'' cwd p := by
  intro key
  rcases h key with hsame | ⟨hnone, hnew, q, hq, hlocate⟩
  · rw [IsMadeFor, ← hsame]
    exact h' key
  · have hlocate' := locate_of_keepsDirectories h'.keepsDirectories hlocate
    exact Or.inr ⟨hnone, h'.get?_of_some hnew, q, hq, hlocate'⟩

theorem makesWay_makeDirectory (h : disk.makeDirectory cwd p = .ok disk') :
    MakesWay disk disk' cwd p := by
  rw [makeDirectory] at h
  cases hlocate : disk.locate cwd p with
  | error fault =>
    rw [hlocate] at h
    cases h
  | ok key =>
    rw [hlocate] at h
    replace h : (if (disk.get? key).isSome then Except.error FileFault.alreadyThere
      else .ok (disk.put key .directory)) = .ok disk' := h
    split at h
    · cases h
    · rename_i hfree
      have hnone : disk.get? key = none := by simpa using hfree
      have hput : ∀ other, (disk.put key .directory).get? other =
          if other = key then some .directory else disk.get? other :=
        fun other => get?_put (ne_nil_of_get?_eq_none hnone) other .directory
      have hkeeps : KeepsDirectories disk (disk.put key .directory) := by
        intro other hother
        rw [hput]
        split
        · rfl
        · exact hother
      rw [← Except.ok.inj h]
      intro other
      rw [hput]
      split
      · rename_i heq
        subst heq
        refine Or.inr ⟨hnone, ?_, p, .refl p, locate_of_keepsDirectories hkeeps hlocate⟩
        rw [hput, if_pos rfl]
      · exact Or.inl rfl

theorem disk_acceptDirectory (disk : Disk) (cwd : Key) (p : Path) (fault : FileFault) :
    (acceptDirectory disk cwd p fault).disk = disk := rfl

/-- The loop makes no directories but those on the way, also if it fails in the end. -/
theorem makesWay_makeDirectoriesFrom (cwd : Key) (root : String) (reversed : List String)
    (disk : Disk) :
    MakesWay disk (makeDirectoriesFrom cwd root reversed disk).disk cwd
      ⟨root, reversed.reverse⟩ := by
  induction reversed generalizing disk with
  | nil =>
    rw [makeDirectoriesFrom]
    split
    · exact makesWay_makeDirectory ‹_›
    · exact .refl _ _ _
    · exact .refl _ _ _
  | cons part above ih =>
    have hshorter : Path.LeadsTo ⟨root, above.reverse⟩ ⟨root, (part :: above).reverse⟩ :=
      ⟨rfl, by simp⟩
    have hparent := (ih disk).mono hshorter
    rw [makeDirectoriesFrom]
    split
    · exact makesWay_makeDirectory ‹_›
    · dsimp only
      split
      · exact hparent
      · split
        · exact hparent.trans (makesWay_makeDirectory ‹_›)
        · rw [disk_acceptDirectory]
          exact hparent
    · exact .refl _ _ _

theorem makesWay_makeDirectories (disk : Disk) (cwd : Key) (p : Path) :
    MakesWay disk (disk.makeDirectories cwd p).disk cwd p := by
  have hway := makesWay_makeDirectoriesFrom cwd p.root p.parts.reverse disk
  rw [List.reverse_reverse] at hway
  exact hway

/-! ## Files that are written -/

/-- The path leads to a file with the bytes, and nothing else has changed. -/
def PlacesFile (disk disk' : Disk) (cwd : Key) (p : Path) (bytes : List UInt8) : Prop :=
  ∃ key, disk'.locate cwd p = .ok key ∧ disk.get? key ≠ some .directory ∧
    disk'.get? = View.withFile disk.get? key bytes

/-- A file that takes no directory's place leaves directories as they are. -/
theorem keepsDirectories_of_withFile (hfree : disk.get? key ≠ some .directory)
    (hview : disk'.get? = View.withFile disk.get? key bytes) : KeepsDirectories disk disk' := by
  intro other hother
  rw [hview, View.withFile, if_neg]
  · exact hother
  · intro heq
    rw [heq] at hother
    exact hfree hother

theorem placesFile_writeBytes (h : (disk.writeBytes cwd p bytes).result = .ok ()) :
    PlacesFile disk (disk.writeBytes cwd p bytes).disk cwd p bytes := by
  rw [writeBytes] at h ⊢
  cases hlocate : disk.locate cwd p with
  | error fault =>
    rw [hlocate] at h
    cases h
  | ok key =>
    rw [hlocate] at h
    dsimp only at h ⊢
    split at h
    · cases h
    · rename_i hfree
      have hplace : disk.get? key ≠ some .directory := hfree
      have hview : (disk.put key (.file bytes)).get? = View.withFile disk.get? key bytes :=
        get?_put_file (ne_nil_of_not_directory hplace)
      have hkeeps := keepsDirectories_of_withFile hplace hview
      exact ⟨key, locate_of_keepsDirectories hkeeps hlocate, hplace, hview⟩

end Disk

end Backfield
