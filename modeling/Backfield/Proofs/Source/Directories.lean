import Backfield.Proofs.Delivery.Preparation
import Backfield.Proofs.Source.Arguments
import Backfield.Proofs.Text.Utf8

/-!
# Reading directories

What is read from directories is what stands below them under the name of a source file.  Files are
read, wherever they stand, if they are UTF-8.  A directory can have such a name, too, and the search
finds it like a file.  What stands in it is found as well, but it cannot be read itself and ends the
reading.

* `IsFound` says what the search finds, and `mem_expandPaths_iff_isFound` that it does.
* `readFile_of_file` and `readFile_of_directory` are what becomes of one path that is found.
* `exists_mapM_eq_ok` and `mapM_eq_error_of_isFirst` carry this over to all of them.
* `readsSourceFiles_iff` is the result: all source files are read exactly if no directory is named
  like one; else the first directory that is ends the reading.
-/

namespace Backfield

open Delivery (IsFirst)

/-! ## Loops with results -/

section

variable {ε α β : Type} {f : α → Except ε β} {holds : α → Prop} {xs : List α} {a : α}

theorem exists_isFirst (h : ∃ x ∈ xs, holds x) : ∃ a, IsFirst holds xs a := by
  induction xs with
  | nil => simp at h
  | cons x rest ih =>
    by_cases hx : holds x
    · exact ⟨x, (Delivery.isFirst_cons_of_holds hx).mpr rfl⟩
    · rw [List.exists_mem_cons_iff, or_iff_right hx] at h
      obtain ⟨a, ha⟩ := ih h
      exact ⟨a, (Delivery.isFirst_cons_of_not hx).mpr ha⟩

theorem exists_mapM_eq_ok (h : ∀ x ∈ xs, ∃ b, f x = .ok b) : ∃ bs, xs.mapM f = .ok bs := by
  induction xs with
  | nil => exact ⟨[], rfl⟩
  | cons x rest ih =>
    obtain ⟨⟨b, hb⟩, hrest⟩ := List.forall_mem_cons.mp h
    obtain ⟨bs, hbs⟩ := ih hrest
    refine ⟨b :: bs, ?_⟩
    rw [List.mapM_cons, hb, hbs]
    rfl

/-- A loop ends with the first element that fails. -/
theorem mapM_eq_error_of_isFirst {e : ε} (hfirst : IsFirst holds xs a)
    (hothers : ∀ x ∈ xs, ¬holds x → ∃ b, f x = .ok b) (ha : f a = .error e) :
    xs.mapM f = .error e := by
  induction xs with
  | nil => exact absurd hfirst Delivery.not_isFirst_nil
  | cons x rest ih =>
    rw [List.mapM_cons]
    by_cases hx : holds x
    · rw [← (Delivery.isFirst_cons_of_holds hx).mp hfirst, ha]
      rfl
    · obtain ⟨b, hb⟩ := hothers x List.mem_cons_self hx
      rw [hb, ih ((Delivery.isFirst_cons_of_not hx).mp hfirst)
        fun y hy => hothers y (List.mem_cons_of_mem _ hy)]
      rfl

end

namespace Source

variable {disk : Disk} {cwd key : Key} {excludeGenerated : Bool} {paths : List Path} {p q : Path}
  {entry : Entry} {bytes : List UInt8}

/-! ## What is found -/

/-- Every file that is named like a source file holds the bytes of a text. -/
def HoldsTexts (disk : Disk) : Prop :=
  ∀ key bytes, disk.get? key = some (.file bytes) →
    Text.endsWith (key.getLast?.getD "") sourceSuffix = true →
      ∃ text, bytes = Text.Utf8.encode text

theorem holdsTexts_of_entries
    (h : ∀ e ∈ disk.entries, ∀ bytes, e.2 = .file bytes → ∃ text, bytes = Text.Utf8.encode text) :
    HoldsTexts disk := by
  intro key bytes hfile _
  have hkey : key ≠ [] := by
    rintro rfl
    cases hfile
  exact h _ (Disk.mem_entries_of_get? hkey hfile) bytes rfl

/-- The entry stands below one of the paths, where this path leads, and is named like a source
file.  If generated files are left out, it is not named like one of these. -/
structure IsFound (disk : Disk) (cwd : Key) (excludeGenerated : Bool) (paths : List Path) (q : Path)
    (entry : Entry) : Prop where
  below : ∃ p ∈ paths, ∃ key rest, disk.locate cwd p = .ok key ∧ rest ≠ [] ∧
    disk.get? (key ++ rest) = some entry ∧ q = { p with parts := p.parts ++ rest }
  named : Text.endsWith q.name sourceSuffix = true
  kept : (excludeGenerated && isGenerated q) = false

/-- The search finds what stands below the directories under the name of a source file, files and
directories alike. -/
theorem mem_expandPaths_iff_isFound (hpaths : ∀ p ∈ paths, disk.isDirectory cwd p = true) :
    q ∈ expandPaths disk cwd excludeGenerated paths ↔
      ∃ entry, IsFound disk cwd excludeGenerated paths q entry := by
  have hname : ∀ {p : Path} {rest : List String}, rest ≠ [] →
      Path.name { p with parts := p.parts ++ rest } = rest.getLast?.getD "" := by
    intro p rest hrest
    rw [Path.name, List.getLast?_append_of_ne_nil _ hrest]
  rw [mem_expandPaths]
  constructor
  · rintro ⟨⟨p, hp, hq⟩, hkept⟩
    have hdirectory := hpaths p hp
    rw [Disk.isDirectory, Disk.entry?, beq_iff_eq] at hdirectory
    split at hdirectory
    · rename_i key hlocate
      obtain ⟨rest, hrest, hthere, hsuffix, rfl⟩ := (mem_pathsUnder hlocate hdirectory).mp hq
      obtain ⟨entry, hentry⟩ := Option.ne_none_iff_exists'.mp hthere
      exact ⟨entry, ⟨p, hp, key, rest, hlocate, hrest, hentry, rfl⟩,
        by rwa [hname hrest], hkept⟩
    · cases hdirectory
  · rintro ⟨entry, ⟨p, hp, key, rest, hlocate, hrest, hentry, rfl⟩, hnamed, hkept⟩
    have hdirectory := hpaths p hp
    rw [Disk.isDirectory, Disk.entry?, hlocate, beq_iff_eq] at hdirectory
    refine ⟨⟨p, hp, (mem_pathsUnder hlocate hdirectory).mpr ⟨rest, hrest, ?_, ?_, rfl⟩⟩, hkept⟩
    · rw [hentry]
      exact Option.some_ne_none _
    · rwa [hname hrest] at hnamed

/-- What is found stands where its path leads. -/
theorem IsFound.exists_locate (htree : View.IsTree disk.get?) (hnamed : disk.IsNamed)
    (h : IsFound disk cwd excludeGenerated paths q entry) :
    ∃ key, disk.locate cwd q = .ok key ∧ disk.get? key = some entry ∧
      key.getLast?.getD "" = q.name := by
  obtain ⟨p, -, key, rest, hlocate, hrest, hentry, rfl⟩ := h.below
  have hthere : disk.get? (key ++ rest) ≠ none := by simp [hentry]
  have hdirectory : disk.get? key = some .directory :=
    htree.directory_of_isPrefix hthere (List.prefix_append _ _) (by simpa using hrest)
  refine ⟨key ++ rest, Disk.locate_of_there htree hnamed hlocate hdirectory hthere, hentry, ?_⟩
  rw [Path.name, List.getLast?_append_of_ne_nil _ hrest, List.getLast?_append_of_ne_nil _ hrest]

/-- Where no directory is named like a source file, none is found. -/
theorem not_isFound_directory (htree : View.IsTree disk.get?) (hnamed : disk.IsNamed)
    (h : ∀ e ∈ disk.entries, e.2 = .directory →
      Text.endsWith (e.1.getLast?.getD "") sourceSuffix = false) :
    ¬IsFound disk cwd excludeGenerated paths q .directory := by
  intro hfound
  obtain ⟨key, -, hdirectory, hname⟩ := hfound.exists_locate htree hnamed
  have hsuffix := hname ▸ hfound.named
  have hkey : key ≠ [] := by
    rintro rfl
    cases hsuffix
  exact absurd hsuffix (by simp [h _ (Disk.mem_entries_of_get? hkey hdirectory) rfl])

/-! ## One path -/

theorem readBytes_eq (hlocate : disk.locate cwd q = .ok key) :
    disk.readBytes cwd q = match disk.get? key with
      | none => .error .notFound
      | some .directory => .error .isDirectory
      | some (.file bytes) => .ok bytes := by
  rw [Disk.readBytes, hlocate]
  rfl

/-- A file that is found is read. -/
theorem readFile_of_file (htree : View.IsTree disk.get?) (hnamed : disk.IsNamed)
    (htexts : HoldsTexts disk) (h : IsFound disk cwd excludeGenerated paths q (.file bytes)) :
    ∃ declared, readFile disk cwd q = .ok declared := by
  obtain ⟨key, hlocate, hfile, hname⟩ := h.exists_locate htree hnamed
  obtain ⟨text, rfl⟩ := htexts key bytes hfile (hname ▸ h.named)
  have htext : readText disk cwd q =
      .ok (String.ofList (Text.Utf8.withoutMark text.toList)) := by
    rw [readText, readBytes_eq hlocate, hfile]
    dsimp only
    rw [Text.Utf8.decode_encode]
  rw [readFile_eq, readSource, htext]
  exact ⟨_, rfl⟩

/-- A directory that is found cannot be read. -/
theorem readFile_of_directory (htree : View.IsTree disk.get?) (hnamed : disk.IsNamed)
    (h : IsFound disk cwd excludeGenerated paths q .directory) :
    readFile disk cwd q = .error (.unreadable q.text .isDirectory) := by
  obtain ⟨key, hlocate, hdirectory, -⟩ := h.exists_locate htree hnamed
  rw [readFile_eq, readSource, readText, readBytes_eq hlocate, hdirectory]
  rfl

/-! ## All paths -/

/-- What is read are the files that are found, each once, and nothing else. -/
def ReadsSourceFiles (disk : Disk) (cwd : Key) (excludeGenerated : Bool) (paths : List Path) :
    Prop :=
  ∃ files results, files.Nodup ∧
    (∀ q, q ∈ files ↔ ∃ bytes, IsFound disk cwd excludeGenerated paths q (.file bytes)) ∧
    files.mapM (readFile disk cwd) = .ok results ∧
    (readPaths disk cwd excludeGenerated paths).outcome = .ok (SourceSet.unite files results)

/-- If no directory is found among the files, these are read. -/
theorem readsSourceFiles_of_no_directory (htree : View.IsTree disk.get?) (hnamed : disk.IsNamed)
    (htexts : HoldsTexts disk) (hpaths : ∀ p ∈ paths, disk.isDirectory cwd p = true)
    (hnone : ∀ q, ¬IsFound disk cwd excludeGenerated paths q .directory) :
    ReadsSourceFiles disk cwd excludeGenerated paths := by
  have hfiles : ∀ q, q ∈ expandPaths disk cwd excludeGenerated paths ↔
      ∃ bytes, IsFound disk cwd excludeGenerated paths q (.file bytes) := by
    intro q
    rw [mem_expandPaths_iff_isFound hpaths]
    constructor
    · rintro ⟨entry, h⟩
      cases entry with
      | directory => exact absurd h (hnone q)
      | file bytes => exact ⟨bytes, h⟩
    · exact fun ⟨bytes, h⟩ => ⟨_, h⟩
  obtain ⟨results, hresults⟩ := exists_mapM_eq_ok (f := readFile disk cwd) fun q hq =>
    readFile_of_file htree hnamed htexts ((hfiles q).mp hq).choose_spec
  refine ⟨_, results, nodup_expandPaths, hfiles, hresults, ?_⟩
  rw [outcome_readPaths, hresults]
  rfl

/-- The first directory that is found ends the reading. -/
theorem outcome_readPaths_of_directory (htree : View.IsTree disk.get?) (hnamed : disk.IsNamed)
    (htexts : HoldsTexts disk) (hpaths : ∀ p ∈ paths, disk.isDirectory cwd p = true)
    (h : IsFound disk cwd excludeGenerated paths q .directory) :
    ∃ first, IsFound disk cwd excludeGenerated paths first .directory ∧
      (∀ other, IsFound disk cwd excludeGenerated paths other .directory →
        first.le other = true) ∧
      (readPaths disk cwd excludeGenerated paths).outcome =
        .error (.unreadable first.text .isDirectory) := by
  have hmem : ∀ q, q ∈ expandPaths disk cwd excludeGenerated paths ↔
      ∃ entry, IsFound disk cwd excludeGenerated paths q entry :=
    fun q => mem_expandPaths_iff_isFound hpaths
  obtain ⟨first, hfirst⟩ : ∃ first, IsFirst
      (fun q => IsFound disk cwd excludeGenerated paths q .directory)
      (expandPaths disk cwd excludeGenerated paths) first :=
    exists_isFirst ⟨q, (hmem q).mpr ⟨_, h⟩, h⟩
  have hread : (expandPaths disk cwd excludeGenerated paths).mapM (readFile disk cwd) =
      .error (.unreadable first.text .isDirectory) := by
    refine mapM_eq_error_of_isFirst hfirst (fun other hother hnot => ?_)
      (readFile_of_directory htree hnamed hfirst.1)
    obtain ⟨entry, hentry⟩ := (hmem other).mp hother
    cases entry with
    | directory => exact absurd hentry hnot
    | file bytes => exact readFile_of_file htree hnamed htexts hentry
  refine ⟨first, hfirst.1, fun other hother => ?_, ?_⟩
  · -- The list is in order, so the directories that come later in it are no smaller.
    obtain ⟨-, before, after, hsplit, hbefore⟩ := hfirst
    have hsorted : (expandPaths disk cwd excludeGenerated paths).Pairwise
        fun p q => p.le q = true := pairwise_le_expandPaths
    have hthere := (hmem other).mpr ⟨_, hother⟩
    rw [hsplit] at hsorted hthere
    rcases List.mem_append.mp hthere with hearlier | hlater
    · exact absurd hother (hbefore other hearlier)
    · rcases List.mem_cons.mp hlater with rfl | hlater
      · simpa using Path.le_total other other
      · exact (List.pairwise_cons.mp (List.pairwise_append.mp hsorted).2.1).1 other hlater
  · rw [outcome_readPaths, hread]
    rfl

/-- From directories all source files below them are read, each once, exactly if no directory below
them is named like a source file.  Otherwise the first one that is cannot be read, and nothing is,
although all the files are texts. -/
theorem readsSourceFiles_iff (htree : disk.IsTree) (hnamed : disk.IsNamed)
    (htexts : HoldsTexts disk) (hpaths : ∀ p ∈ paths, disk.isDirectory cwd p = true) :
    (ReadsSourceFiles disk cwd excludeGenerated paths ↔
      ∀ q, ¬IsFound disk cwd excludeGenerated paths q .directory) ∧
    ∀ q, IsFound disk cwd excludeGenerated paths q .directory →
      ∃ first, IsFound disk cwd excludeGenerated paths first .directory ∧
        (∀ other, IsFound disk cwd excludeGenerated paths other .directory →
          first.le other = true) ∧
        (readPaths disk cwd excludeGenerated paths).outcome =
          .error (.unreadable first.text .isDirectory) := by
  rw [Disk.isTree_iff] at htree
  refine ⟨⟨fun hreads q hq => ?_, readsSourceFiles_of_no_directory htree hnamed htexts hpaths⟩,
    fun q hq => outcome_readPaths_of_directory htree hnamed htexts hpaths hq⟩
  obtain ⟨first, -, -, hfails⟩ := outcome_readPaths_of_directory htree hnamed htexts hpaths hq
  obtain ⟨files, results, -, -, -, hok⟩ := hreads
  rw [hfails] at hok
  cases hok

/-- Below the directory all files are read, also the one in the directory in it. -/
theorem readsSourceFiles_nestedDisk :
    nestedDisk.IsTree ∧ nestedDisk.IsNamed ∧ HoldsTexts nestedDisk ∧
      (∀ p ∈ [Path.ofText "src"], nestedDisk.isDirectory ["w"] p = true) ∧
      ReadsSourceFiles nestedDisk ["w"] false [Path.ofText "src"] := by
  have htree : nestedDisk.IsTree := by decide
  have hnamed : nestedDisk.IsNamed := by decide
  have htexts : HoldsTexts nestedDisk := by
    refine holdsTexts_of_entries fun e he bytes hbytes => ?_
    simp only [nestedDisk, List.mem_cons, List.not_mem_nil, or_false] at he
    rcases he with rfl | rfl | rfl | rfl | rfl | rfl <;> cases hbytes <;> exact ⟨_, rfl⟩
  have hpaths : ∀ p ∈ [Path.ofText "src"], nestedDisk.isDirectory ["w"] p = true := by
    decide +kernel
  refine ⟨htree, hnamed, htexts, hpaths, ?_⟩
  rw [(readsSourceFiles_iff htree hnamed htexts hpaths).1]
  exact fun q => not_isFound_directory (Disk.isTree_iff.mp htree) hnamed (by decide +kernel)

/-- A directory with another one in it that is named like a source file, and a source file in
this. -/
def misnamedDisk : Disk where
  entries := [(["w"], .directory), (["w", "d"], .directory), (["w", "d", "x.cs"], .directory),
    (["w", "d", "x.cs", "b.cs"], .file (Text.Utf8.encode "class B \x7b \x7d\n"))]

/-- The directory ends the reading, although the only file is a text. -/
theorem not_readsSourceFiles_misnamedDisk :
    misnamedDisk.IsTree ∧ misnamedDisk.IsNamed ∧ HoldsTexts misnamedDisk ∧
      (∀ p ∈ [Path.ofText "d"], misnamedDisk.isDirectory ["w"] p = true) ∧
      (∃ path, (readPaths misnamedDisk ["w"] false [Path.ofText "d"]).outcome =
        .error (.unreadable path .isDirectory)) ∧
      ¬ReadsSourceFiles misnamedDisk ["w"] false [Path.ofText "d"] := by
  have htree : misnamedDisk.IsTree := by decide
  have hnamed : misnamedDisk.IsNamed := by decide
  have htexts : HoldsTexts misnamedDisk := by
    refine holdsTexts_of_entries fun e he bytes hbytes => ?_
    simp only [misnamedDisk, List.mem_cons, List.not_mem_nil, or_false] at he
    rcases he with rfl | rfl | rfl | rfl <;> cases hbytes
    exact ⟨_, rfl⟩
  have hpaths : ∀ p ∈ [Path.ofText "d"], misnamedDisk.isDirectory ["w"] p = true := by
    decide +kernel
  have hfound : IsFound misnamedDisk ["w"] false [Path.ofText "d"] ⟨"", ["d", "x.cs"]⟩
      .directory :=
    ⟨⟨_, List.mem_cons_self, ["w", "d"], ["x.cs"], by decide +kernel, by decide, by decide,
      by decide +kernel⟩, by decide +kernel, rfl⟩
  obtain ⟨first, -, -, hfails⟩ :=
    outcome_readPaths_of_directory (Disk.isTree_iff.mp htree) hnamed htexts hpaths hfound
  refine ⟨htree, hnamed, htexts, hpaths, ⟨_, hfails⟩, ?_⟩
  rintro ⟨files, results, -, -, -, hok⟩
  rw [hfails] at hok
  cases hok

end Source

end Backfield
