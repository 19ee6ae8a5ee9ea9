import Mathlib.Data.List.Infix
import Mathlib.Data.List.Induction
import Backfield.Disk.Basic

/-!
# Disks as trees

What a disk holds is a function from keys to entries, its view.  This module gives the view
after each change and the invariant that every operation keeps: what stands anywhere stands in
a directory.

* `get?_put` is the change that all others are made of, seen through the view.
* `Disk.IsTree` can be decided entry by entry; `Disk.isTree_iff` says that it is
  `View.IsTree` of the view.
* `View.IsTree.directory_of_isPrefix` says that everything above what is there is a directory.
* `View.withDirectories`, `View.withFile` and `View.delivered` are the changes that a delivery
  makes, and `View.IsTree.delivered` says that the view stays a tree.
-/

namespace Backfield

/-! ## The view of a disk -/

/-- What stands at each key. -/
abbrev View := Key → Option Entry

namespace Disk

theorem lookup_cons_eq (e : Key × Entry) (entries : List (Key × Entry)) (key : Key) :
    (e :: entries).lookup key = if key = e.1 then some e.2 else entries.lookup key := by
  obtain ⟨key', entry⟩ := e
  rw [List.lookup_cons]
  by_cases hkey : key = key'
  · simp [hkey]
  · have hne : (key == key') = false := beq_eq_false_iff_ne.mpr hkey
    rw [hne, if_neg hkey]

theorem lookup_putEntry (key other : Key) (entry : Entry) (entries : List (Key × Entry)) :
    (putEntry key entry entries).lookup other =
      if other = key then some entry else entries.lookup other := by
  induction entries with
  | nil => exact lookup_cons_eq (key, entry) [] other
  | cons e rest ih =>
    rw [putEntry, lookup_cons_eq]
    by_cases hkey : e.1 = key
    · rw [if_pos (beq_iff_eq.mpr hkey), lookup_cons_eq, hkey]
      by_cases hother : other = key <;> simp [hother]
    · rw [if_neg (by simpa using hkey), lookup_cons_eq, ih]
      by_cases hother : other = e.1
      · simp [hother, hkey]
      · simp [hother]

theorem get?_put {disk : Disk} {key : Key} (hkey : key ≠ []) (other : Key) (entry : Entry) :
    (disk.put key entry).get? other = if other = key then some entry else disk.get? other := by
  rw [get?, put, lookup_putEntry, get?]
  by_cases hroot : other = []
  · subst hroot
    simp [Ne.symm hkey]
  · simp [hroot]

theorem lookup_isSome_of_mem {e : Key × Entry} {entries : List (Key × Entry)}
    (hmem : e ∈ entries) : (entries.lookup e.1).isSome := by
  induction entries with
  | nil => cases hmem
  | cons e' rest ih =>
    rw [lookup_cons_eq]
    split
    · rfl
    · rename_i hne
      rcases List.mem_cons.mp hmem with rfl | hrest
      · exact absurd rfl hne
      · exact ih hrest

theorem mem_entries_of_get? {disk : Disk} {key : Key} {entry : Entry} (hkey : key ≠ [])
    (hentry : disk.get? key = some entry) : (key, entry) ∈ disk.entries := by
  rw [get?, if_neg (by simpa using hkey)] at hentry
  obtain ⟨before, after, heq, -⟩ := List.lookup_eq_some_iff.mp hentry
  rw [heq]
  simp

theorem mem_keys_of_get? {disk : Disk} {key : Key} (hkey : key ≠ [])
    (hsome : (disk.get? key).isSome) : key ∈ disk.entries.map Prod.fst := by
  obtain ⟨entry, hentry⟩ := Option.isSome_iff_exists.mp hsome
  exact List.mem_map.mpr ⟨_, mem_entries_of_get? hkey hentry, rfl⟩

end Disk

/-! ## Trees -/

/-- What stands at a key below another stands in a directory, and so does the root. -/
structure View.IsTree (look : View) : Prop where
  root : look [] = some .directory
  parent : ∀ key part, look (key ++ [part]) ≠ none → look key = some .directory

/-- Every entry of the disk stands in a directory. -/
def Disk.IsTree (disk : Disk) : Prop :=
  ∀ e ∈ disk.entries, disk.get? e.1.dropLast = some .directory

instance (disk : Disk) : Decidable disk.IsTree :=
  inferInstanceAs (Decidable (∀ e ∈ disk.entries, disk.get? e.1.dropLast = some .directory))

theorem Disk.isTree_iff {disk : Disk} : disk.IsTree ↔ View.IsTree disk.get? := by
  constructor
  · intro htree
    refine ⟨rfl, fun key part hsome => ?_⟩
    have hmem := mem_keys_of_get? (by simp) (Option.isSome_iff_ne_none.mpr hsome)
    obtain ⟨e, he, hkey⟩ := List.mem_map.mp hmem
    have hparent := htree e he
    rwa [hkey, List.dropLast_concat] at hparent
  · intro htree e he
    rcases List.eq_nil_or_concat' e.1 with hnil | ⟨key, part, hkey⟩
    · rw [hnil]
      exact htree.root
    · have hsome : disk.get? e.1 ≠ none := by
        rw [get?, if_neg (by simp [hkey])]
        exact Option.isSome_iff_ne_none.mp (lookup_isSome_of_mem he)
      rw [hkey] at hsome ⊢
      rw [List.dropLast_concat]
      exact htree.parent key part hsome

/-! ## Above what is there -/

namespace View

variable {look : View} {key above : Key} {bytes : List UInt8}

/-- All that is above something is a directory. -/
theorem IsTree.directory_of_isPrefix (htree : look.IsTree) (hsome : look key ≠ none)
    (habove : above <+: key) (hne : above ≠ key) : look above = some .directory := by
  obtain ⟨rest, rfl⟩ := habove
  induction rest using List.reverseRecOn with
  | nil => exact absurd (List.append_nil above).symm hne
  | append_singleton rest part ih =>
    rw [← List.append_assoc] at hsome
    have hparent := htree.parent _ _ hsome
    by_cases hrest : rest = []
    · rwa [hrest, List.append_nil] at hparent
    · refine ih ?_ (by simpa using hrest)
      rw [hparent]
      simp

/-- A directory and all above it are directories. -/
theorem IsTree.directory_of_isPrefix_directory (htree : look.IsTree)
    (hdirectory : look key = some .directory) (habove : above <+: key) :
    look above = some .directory := by
  by_cases heq : above = key
  · rwa [heq]
  · exact htree.directory_of_isPrefix (by simp [hdirectory]) habove heq

/-- A file stands at the key or above it. -/
def FileOn (look : View) (key : Key) : Prop :=
  ∃ above, above <+: key ∧ ∃ bytes, look above = some (.file bytes)

theorem FileOn.of_isPrefix (hfile : look.FileOn above) (habove : above <+: key) :
    look.FileOn key := by
  obtain ⟨higher, hhigher, hbytes⟩ := hfile
  exact ⟨higher, hhigher.trans habove, hbytes⟩

theorem not_fileOn_concat {part : String} (hclear : ¬look.FileOn key)
    (hnone : look (key ++ [part]) = none) : ¬look.FileOn (key ++ [part]) := by
  rintro ⟨other, hother, bytes, hbytes⟩
  rcases List.prefix_concat_iff.mp hother with heq | habove
  · rw [heq, hnone] at hbytes
    cases hbytes
  · exact hclear ⟨other, habove, bytes, hbytes⟩

theorem IsTree.not_fileOn_of_directory (htree : look.IsTree)
    (hdirectory : look key = some .directory) : ¬look.FileOn key := by
  rintro ⟨above, habove, bytes, hfile⟩
  rw [htree.directory_of_isPrefix_directory hdirectory habove] at hfile
  cases hfile

/-- Nothing stands below a missing entry, and above it are directories, as its directory is
one. -/
theorem IsTree.not_fileOn_of_missing {part : String} (htree : look.IsTree)
    (hdirectory : look above = some .directory) (hmissing : look (above ++ [part]) = none)
    (hbegins : above ++ [part] <+: key) : look key = none ∧ ¬look.FileOn key := by
  have hbelow : ∀ other, above ++ [part] <+: other → look other = none := by
    intro other hother
    by_contra hsome
    by_cases heq : above ++ [part] = other
    · exact hsome (heq ▸ hmissing)
    · rw [htree.directory_of_isPrefix hsome hother heq] at hmissing
      cases hmissing
  refine ⟨hbelow key hbegins, ?_⟩
  rintro ⟨other, hother, bytes, hfile⟩
  -- What is on the way to the key lies below the missing entry or above it.
  rcases List.prefix_or_prefix_of_prefix hbegins hother with hlower | hhigher
  · rw [hbelow other hlower] at hfile
    cases hfile
  · rcases List.prefix_concat_iff.mp hhigher with heq | hhigher
    · rw [heq, hmissing] at hfile
      cases hfile
    · rw [htree.directory_of_isPrefix_directory hdirectory hhigher] at hfile
      cases hfile

/-! ## Changes of a view -/

/-- The view with a directory at the key and at all above it where nothing has been. -/
def withDirectories (look : View) (key : Key) : View := fun other =>
  if other <+: key ∧ look other = none then some .directory else look other

/-- The view with a file at the key. -/
def withFile (look : View) (key : Key) (bytes : List UInt8) : View := fun other =>
  if other = key then some (.file bytes) else look other

/-- The view after a file has been delivered: missing directories are there, and the file. -/
def delivered (look : View) (key : Key) (bytes : List UInt8) : View :=
  (look.withDirectories key.dropLast).withFile key bytes

/-- A file cannot be delivered: its place is a directory, or a file is above it. -/
def Blocked (look : View) (key : Key) : Prop :=
  look key = some .directory ∨ look.FileOn key.dropLast

theorem withDirectories_of_some (hsome : look above ≠ none) :
    look.withDirectories key above = look above :=
  if_neg fun h => hsome h.2

theorem IsTree.withDirectories_of_directory (htree : look.IsTree)
    (hdirectory : look key = some .directory) : look.withDirectories key = look := by
  funext other
  refine if_neg fun h => ?_
  rw [htree.directory_of_isPrefix_directory hdirectory h.1] at h
  cases h.2

/-- Making the directories above a missing one and then that one makes all of them. -/
theorem withDirectories_concat (look : View) (key : Key) (part : String) :
    (look.withDirectories key).withDirectories (key ++ [part]) =
      look.withDirectories (key ++ [part]) := by
  funext other
  unfold View.withDirectories
  by_cases hmissing : look other = none
  · by_cases hbegins : other <+: key
    · have hlonger : other <+: key ++ [part] := hbegins.trans (List.prefix_append _ _)
      simp [hmissing, hbegins, hlonger]
    · simp [hmissing, hbegins]
  · simp [hmissing]

theorem withDirectories_self (hclear : ¬look.FileOn key) :
    look.withDirectories key key = some .directory := by
  cases hentry : look key with
  | none => exact if_pos ⟨List.prefix_rfl, hentry⟩
  | some entry =>
    cases entry with
    | directory => rw [withDirectories_of_some (by simp [hentry]), hentry]
    | file bytes => exact absurd ⟨key, List.prefix_rfl, bytes, hentry⟩ hclear

theorem IsTree.withDirectories (htree : look.IsTree) (hclear : ¬look.FileOn key) :
    (look.withDirectories key).IsTree := by
  have hkeep : ∀ other, look other = some .directory →
      look.withDirectories key other = some .directory := by
    intro other hother
    rw [withDirectories_of_some (by simp [hother]), hother]
  refine ⟨hkeep [] htree.root, fun other part hsome => ?_⟩
  by_cases hmade : other ++ [part] <+: key ∧ look (other ++ [part]) = none
  · have hother : other <+: key := (List.prefix_append other [part]).trans hmade.1
    have hclear' : ¬look.FileOn other := fun h => hclear (h.of_isPrefix hother)
    have hself := withDirectories_self hclear'
    rw [View.withDirectories] at hself ⊢
    by_cases hmissing : look other = none
    · exact if_pos ⟨hother, hmissing⟩
    · rw [if_neg fun h => hmissing h.2]
      rwa [if_neg fun h => hmissing h.2] at hself
  · rw [View.withDirectories, if_neg hmade] at hsome
    exact hkeep other (htree.parent other part hsome)

/-- A file in a directory leaves a tree, unless it takes the place of a directory. -/
theorem IsTree.withFile (htree : look.IsTree) (hparent : look key.dropLast = some .directory)
    (hfree : look key ≠ some .directory) : (look.withFile key bytes).IsTree := by
  have hkeep : ∀ other, look other = some .directory →
      look.withFile key bytes other = some .directory := by
    intro other hother
    refine (if_neg ?_).trans hother
    rintro rfl
    exact hfree hother
  refine ⟨hkeep [] htree.root, fun other part hsome => hkeep other ?_⟩
  by_cases heq : other ++ [part] = key
  · rwa [← heq, List.dropLast_concat] at hparent
  · rw [View.withFile, if_neg heq] at hsome
    exact htree.parent other part hsome

/-- Making the directories that lead to a key changes nothing at the key. -/
theorem IsTree.withDirectories_dropLast (htree : look.IsTree) (key : Key) :
    look.withDirectories key.dropLast key = look key := by
  rw [View.withDirectories]
  refine if_neg ?_
  -- The key would be above its own directory, so it would be the root.
  rintro ⟨hbegins, hmissing⟩
  have hlength := hbegins.length_le
  rw [List.length_dropLast] at hlength
  have hroot : key = [] := List.length_eq_zero_iff.mp (by omega)
  rw [hroot, htree.root] at hmissing
  cases hmissing

/-- A delivered file leaves a tree. -/
theorem IsTree.delivered (htree : look.IsTree) (hclear : ¬look.Blocked key) :
    (look.delivered key bytes).IsTree := by
  have hpath : ¬look.FileOn key.dropLast := fun h => hclear (Or.inr h)
  refine (htree.withDirectories hpath).withFile (withDirectories_self hpath) ?_
  rw [htree.withDirectories_dropLast key]
  exact fun hdirectory => hclear (Or.inl hdirectory)

/-- Directories outlive a delivery. -/
theorem delivered_of_directory (hclear : ¬look.Blocked key)
    (hdirectory : look above = some .directory) :
    look.delivered key bytes above = some .directory := by
  have hne : above ≠ key := by
    rintro rfl
    exact hclear (Or.inl hdirectory)
  rw [View.delivered, withFile, if_neg hne, withDirectories_of_some (by simp [hdirectory]),
    hdirectory]

end View

end Backfield
