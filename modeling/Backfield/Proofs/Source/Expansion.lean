import Mathlib.Data.List.Nodup
import Backfield.Proofs.Disk.FileNames
import Backfield.Proofs.Scan.Groups
import Backfield.Source.Files

/-!
# Which files are read

The paths that a list of paths stands for depend on what is on the disk and not on how the disk
lists it.  So a disk on which nothing has changed for the reader is read alike.

* `eq_of_pairwise_le` says that paths in order and without repeats are told by which they are.
* `mem_pathsUnder` says which paths a directory stands for, and `eq_or_exists_of_mem_pathsUnder`
  which any path stands for.
* `mem_expandPaths`, `pairwise_le_expandPaths` and `nodup_expandPaths` say what a list of paths
  stands for.
* `KeepsSources` says that nothing has changed but generated files and entries that are not named
  like source files, and `expandPaths_of_keepsSources` that the same paths are found then.
* `readPaths_of_keepsSources` is the result: the same is read from them.
-/

namespace Backfield

/-! ## The order of paths -/

/-- What is left when repeats are dropped is in the order of the list. -/
theorem sublist_eraseDups {α : Type} [BEq α] (xs : List α) : xs.eraseDups.Sublist xs := by
  induction xs using List.reverseRecOn with
  | nil => exact List.Sublist.refl _
  | append_singleton xs x ih =>
    rw [List.eraseDups, Scan.eraseDupsBy_concat]
    split
    · exact ih.trans (List.sublist_append_left _ _)
    · exact ih.append (List.Sublist.refl _)

namespace Path

/-- Paths are ordered as the standard library orders lists.  Its instance is named, since there are
others. -/
theorem le_iff {p q : Path} :
    p.le q = true ↔ @LE.le (List String) List.instLE p.sortKey q.sortKey := by
  rw [le, Bool.not_eq_true', List.lex_eq_false_iff_ge]

theorem le_trans (p q o : Path) (hpq : p.le q = true) (hqo : q.le o = true) : p.le o = true := by
  rw [le_iff] at hpq hqo ⊢
  exact List.le_trans hpq hqo

theorem le_total (p q : Path) : (p.le q || q.le p) = true := by
  rw [Bool.or_eq_true, le_iff, le_iff]
  exact List.le_total _ _

/-- Component by component, the first path comes before the second. -/
def lt (p q : Path) : Bool := p.sortKey.lex q.sortKey fun s t => decide (s < t)

theorem le_eq_not_lt (p q : Path) : p.le q = !q.lt p := rfl

/-- Of two paths that are ordered by different things, the one that does not come after the other
comes before it. -/
theorem lt_of_le {p q : Path} (hle : p.le q = true) (hne : p.sortKey ≠ q.sortKey) :
    p.lt q = true := by
  by_contra hlt
  have hge : q.le p = true := by rw [le_eq_not_lt, Bool.eq_false_iff.mpr hlt, Bool.not_false]
  rw [le_iff] at hle hge
  exact hne (List.le_antisymm hle hge)

/-- A full path is told by what it is ordered by. -/
theorem eq_of_sortKey_eq {p q : Path} (hp : p.root ≠ "") (hq : q.root ≠ "")
    (h : p.sortKey = q.sortKey) : p = q := by
  rw [sortKey, sortKey, if_neg (by simpa using hp), if_neg (by simpa using hq),
    List.cons.injEq] at h
  calc p = ⟨p.root, p.parts⟩ := rfl
    _ = ⟨q.root, q.parts⟩ := by rw [h.1, h.2]
    _ = q := rfl

/-- Sorted paths without repeats are told by which they are, if what they are ordered by tells
them. -/
theorem eq_of_pairwise_le {ps qs : List Path}
    (hkey : ∀ p ∈ ps, ∀ q ∈ ps, p.sortKey = q.sortKey → p = q)
    (hps : ps.Pairwise fun p q => p.le q = true) (hqs : qs.Pairwise fun p q => p.le q = true)
    (hnodup : ps.Nodup) (hnodup' : qs.Nodup) (h : ∀ p, p ∈ ps ↔ p ∈ qs) : ps = qs := by
  refine List.Perm.eq_of_pairwise ?_ hps hqs ((List.perm_ext_iff_of_nodup hnodup hnodup').mpr h)
  intro p q hp hq hpq hqp
  rw [le_iff] at hpq hqp
  exact hkey p hp q ((h q).mpr hq) (List.le_antisymm hpq hqp)

end Path

/-! ## What stands below a directory -/

namespace Disk

variable {disk : Disk} {cwd key : Key} {p : Path}

/-- Below a key stands what has a longer key and is there. -/
theorem mem_below {rest : List String} :
    (∃ entry, (rest, entry) ∈ disk.below key) ↔ rest ≠ [] ∧ disk.get? (key ++ rest) ≠ none := by
  constructor
  · rintro ⟨entry, hmem⟩
    rw [below, List.mem_filterMap] at hmem
    obtain ⟨e, he, hsome⟩ := hmem
    split at hsome
    · rename_i hbelow
      rw [Bool.and_eq_true, List.isPrefixOf_iff_prefix, bne_iff_ne] at hbelow
      obtain ⟨⟨more, hmore⟩, hne⟩ := hbelow
      cases hsome
      have hdrop : e.1.drop key.length = more := by
        rw [← hmore, List.drop_left]
      rw [hdrop, hmore]
      have hrest : more ≠ [] := by
        rintro rfl
        exact hne (by rw [← hmore, List.append_nil])
      refine ⟨hrest, ?_⟩
      have hkey : ¬e.1.isEmpty = true := by
        rw [← hmore]
        simp [hrest]
      rw [get?, if_neg hkey, ← Option.isSome_iff_ne_none]
      exact lookup_isSome_of_mem he
    · cases hsome
  · rintro ⟨hrest, hsome⟩
    have hkey : key ++ rest ≠ [] := by simp [hrest]
    obtain ⟨e, he, heq⟩ := List.mem_map.mp
      (mem_keys_of_get? hkey (Option.isSome_iff_ne_none.mpr hsome))
    refine ⟨e.2, ?_⟩
    rw [below, List.mem_filterMap]
    refine ⟨e, he, ?_⟩
    have hbelow : (key.isPrefixOf e.1 && e.1 != key) = true := by
      rw [heq, Bool.and_eq_true, List.isPrefixOf_iff_prefix, bne_iff_ne]
      refine ⟨List.prefix_append _ _, fun hsame => hrest ?_⟩
      simpa using hsame
    rw [if_pos hbelow, heq, List.drop_left]

/-- The last component of a path that does not end by going up is the name of its place. -/
theorem getLast?_of_locate (hparts : p.parts ≠ []) (hname : p.name ≠ "..")
    (hlocate : disk.locate cwd p = .ok key) : key.getLast? = some p.name := by
  have hstep := (parent_cases p).resolve_left fun h => hparts h.1
  rw [hstep] at hlocate
  obtain ⟨directory, -, hlast⟩ := exists_of_bind_eq_ok hlocate
  rcases walk_singleton hlast with ⟨hup, -⟩ | ⟨-, hdown⟩
  · exact absurd hup hname
  · rw [hdown, List.getLast?_concat]

end Disk

namespace Source

open Disk (KeepsDirectories)

variable {disk disk' : Disk} {cwd key : Key} {p q : Path} {paths : List Path}

/-- A directory stands for everything below it that is named like a source file. -/
theorem mem_pathsUnder (hlocate : disk.locate cwd p = .ok key)
    (hdirectory : disk.get? key = some .directory) :
    q ∈ pathsUnder disk cwd p ↔ ∃ rest, rest ≠ [] ∧ disk.get? (key ++ rest) ≠ none ∧
      Text.endsWith (rest.getLast?.getD "") sourceSuffix = true ∧
        q = { p with parts := p.parts ++ rest } := by
  rw [pathsUnder, hlocate]
  dsimp only
  rw [if_pos hdirectory, List.mem_map]
  constructor
  · rintro ⟨e, he, rfl⟩
    obtain ⟨hbelow, hsuffix⟩ := List.mem_filter.mp he
    obtain ⟨hrest, hthere⟩ := Disk.mem_below.mp ⟨e.2, hbelow⟩
    exact ⟨e.1, hrest, hthere, hsuffix, rfl⟩
  · rintro ⟨rest, hrest, hthere, hsuffix, rfl⟩
    obtain ⟨entry, hbelow⟩ := Disk.mem_below.mpr ⟨hrest, hthere⟩
    exact ⟨(rest, entry), List.mem_filter.mpr ⟨hbelow, hsuffix⟩, rfl⟩

theorem pathsUnder_of_not_directory (h : disk.entry? cwd p ≠ some .directory) :
    pathsUnder disk cwd p = [p] := by
  rw [pathsUnder]
  rw [Disk.entry?] at h
  split
  · rename_i key hlocate
    rw [hlocate] at h
    rw [if_neg h]
  · rfl

/-- A path stands for itself or for what is below the directory that it leads to. -/
theorem eq_or_exists_of_mem_pathsUnder (hq : q ∈ pathsUnder disk cwd p) :
    q = p ∨ ∃ key rest, disk.locate cwd p = .ok key ∧ rest ≠ [] ∧ disk.get? (key ++ rest) ≠ none ∧
      Text.endsWith (rest.getLast?.getD "") sourceSuffix = true ∧
        q = { p with parts := p.parts ++ rest } := by
  by_cases hdirectory : disk.entry? cwd p = some .directory
  · have hentry := hdirectory
    rw [Disk.entry?] at hentry
    split at hentry
    · rename_i key hlocate
      obtain ⟨rest, hrest⟩ := (mem_pathsUnder hlocate hentry).mp hq
      exact Or.inr ⟨key, rest, hlocate, hrest⟩
    · cases hentry
  · rw [pathsUnder_of_not_directory hdirectory, List.mem_singleton] at hq
    exact Or.inl hq

/-! ## Lists of paths -/

section

variable {excludeGenerated : Bool}

/-- What is found for some path of a list, unless it is left out. -/
theorem mem_expandPaths : q ∈ expandPaths disk cwd excludeGenerated paths ↔
    (∃ p ∈ paths, q ∈ pathsUnder disk cwd p) ∧ (excludeGenerated && isGenerated q) = false := by
  rw [expandPaths, List.mem_eraseDups, List.mem_mergeSort]
  cases excludeGenerated with
  | false => simp
  | true => simp

theorem pairwise_le_expandPaths :
    (expandPaths disk cwd excludeGenerated paths).Pairwise fun p q => p.le q = true :=
  (List.pairwise_mergeSort Path.le_trans Path.le_total _).sublist (sublist_eraseDups _)

theorem nodup_expandPaths : (expandPaths disk cwd excludeGenerated paths).Nodup :=
  Scan.nodup_eraseDups _

end

/-! ## Disks that are read alike -/

/-- The entry is named like a generated file. -/
def EndsGenerated (key : Key) : Prop :=
  Text.endsWith (key.getLast?.getD "") generatedSuffix = true

/-- Nothing has changed for a reader: what is there stays there, only generated files have other
bytes, and what is new is a generated file or not named like a source file. -/
structure KeepsSources (disk disk' : Disk) : Prop where
  directories : KeepsDirectories disk disk'
  files : ∀ key bytes, disk.get? key = some (.file bytes) →
    ∃ bytes', disk'.get? key = some (.file bytes') ∧ (¬EndsGenerated key → bytes' = bytes)
  added : ∀ key, disk.get? key = none → disk'.get? key ≠ none →
    EndsGenerated key ∨ Text.endsWith (key.getLast?.getD "") sourceSuffix = false

theorem KeepsSources.ne_none (h : KeepsSources disk disk') (hkey : disk.get? key ≠ none) :
    disk'.get? key ≠ none := by
  cases hentry : disk.get? key with
  | none => exact absurd hentry hkey
  | some entry =>
    cases entry with
    | directory =>
      rw [h.directories key hentry]
      exact Option.some_ne_none _
    | file bytes =>
      obtain ⟨bytes', hthere, -⟩ := h.files key bytes hentry
      rw [hthere]
      exact Option.some_ne_none _

/-- The path is a full one, and something stands there. -/
structure IsSource (disk : Disk) (cwd : Key) (p : Path) : Prop where
  full : p.IsFull
  there : disk.entry? cwd p ≠ none

/-- A full path stands for the same paths that are not generated. -/
theorem mem_pathsUnder_of_keepsSources (h : KeepsSources disk disk') (hp : IsSource disk cwd p)
    (hq : isGenerated q = false) : q ∈ pathsUnder disk' cwd p ↔ q ∈ pathsUnder disk cwd p := by
  have hthere := hp.there
  rw [Disk.entry?] at hthere
  cases hlocate : disk.locate cwd p with
  | error fault =>
    rw [hlocate] at hthere
    exact absurd rfl hthere
  | ok key =>
    rw [hlocate] at hthere
    have hlocate' := Disk.locate_of_keepsDirectories h.directories hlocate
    cases hentry : disk.get? key with
    | none => exact absurd hentry hthere
    | some entry =>
      cases entry with
      | file bytes =>
        obtain ⟨bytes', hfile, -⟩ := h.files key bytes hentry
        rw [pathsUnder_of_not_directory, pathsUnder_of_not_directory]
        · simp [Disk.entry?, hlocate, hentry]
        · simp [Disk.entry?, hlocate', hfile]
      | directory =>
        rw [mem_pathsUnder hlocate' (h.directories key hentry), mem_pathsUnder hlocate hentry]
        refine exists_congr fun rest => and_congr_right fun hrest => ?_
        constructor
        · rintro ⟨hnew, hsuffix, rfl⟩
          refine ⟨fun hnone => ?_, hsuffix, rfl⟩
          have hlast : ∀ front : List String,
              (front ++ rest).getLast?.getD "" = rest.getLast?.getD "" := by
            intro front
            rw [List.getLast?_append_of_ne_nil _ hrest]
          rcases h.added _ hnone hnew with hgenerated | hother
          · rw [EndsGenerated, hlast] at hgenerated
            rw [isGenerated, Path.name, hlast, hgenerated] at hq
            cases hq
          · rw [hlast, hsuffix] at hother
            cases hother
        · rintro ⟨hold, hrest⟩
          exact ⟨h.ne_none hold, hrest⟩

theorem root_of_mem_pathsUnder (hq : q ∈ pathsUnder disk cwd p) : q.root = p.root := by
  rcases eq_or_exists_of_mem_pathsUnder hq with rfl | ⟨key, rest, -, -, -, -, rfl⟩
  · rfl
  · rfl

/-- A path that is found is a full one, and it is not that of a generated file. -/
theorem isSource_of_mem_expandPaths (hpaths : ∀ p ∈ paths, IsSource disk cwd p)
    (hq : q ∈ expandPaths disk cwd true paths) :
    q.root ≠ "" ∧ q.name ≠ ".." ∧ isGenerated q = false := by
  obtain ⟨⟨p, hp, hfound⟩, hkept⟩ := mem_expandPaths.mp hq
  have hsource := hpaths p hp
  refine ⟨?_, ?_, hkept⟩
  · rw [root_of_mem_pathsUnder hfound]
    exact hsource.full.root
  · have hself : p.name ≠ ".." := by
      intro hname
      rw [Path.name] at hname
      cases hlast : p.parts.getLast? with
      | none =>
        rw [hlast] at hname
        exact absurd hname (by decide)
      | some part =>
        rw [hlast, Option.getD_some] at hname
        exact hsource.full.dots (hname ▸ List.mem_of_getLast? hlast)
    rcases eq_or_exists_of_mem_pathsUnder hfound with rfl | ⟨key, rest, -, hrest, -, hsuffix, rfl⟩
    · exact hself
    · intro hname
      rw [Path.name, List.getLast?_append_of_ne_nil _ hrest] at hname
      rw [hname] at hsuffix
      exact absurd hsuffix (by decide)

/-- The same paths are found. -/
theorem expandPaths_of_keepsSources (h : KeepsSources disk disk')
    (hpaths : ∀ p ∈ paths, IsSource disk cwd p) :
    expandPaths disk' cwd true paths = expandPaths disk cwd true paths := by
  have hsame : ∀ q, q ∈ expandPaths disk cwd true paths ↔ q ∈ expandPaths disk' cwd true paths := by
    intro q
    rw [mem_expandPaths, mem_expandPaths]
    refine and_congr_left fun hq => exists_congr fun p => and_congr_right fun hp => ?_
    exact (mem_pathsUnder_of_keepsSources h (hpaths p hp) hq).symm
  refine (Path.eq_of_pairwise_le (fun p hp q hq => ?_) pairwise_le_expandPaths
    pairwise_le_expandPaths nodup_expandPaths nodup_expandPaths hsame).symm
  exact Path.eq_of_sortKey_eq (isSource_of_mem_expandPaths hpaths hp).1
    (isSource_of_mem_expandPaths hpaths hq).1

/-! ## What is read -/

/-- What can be read can be read again. -/
theorem readBytes_of_keepsSources {bytes : List UInt8} (h : KeepsSources disk disk')
    (hroot : q.root ≠ "") (hname : q.name ≠ "..") (hgenerated : isGenerated q = false)
    (hread : disk.readBytes cwd q = .ok bytes) : disk'.readBytes cwd q = .ok bytes := by
  rw [Disk.readBytes] at hread ⊢
  obtain ⟨key, hlocate, hfile⟩ := exists_of_bind_eq_ok hread
  rw [Disk.locate_of_keepsDirectories h.directories hlocate]
  cases hentry : disk.get? key with
  | none =>
    rw [hentry] at hfile
    cases hfile
  | some entry =>
    cases entry with
    | directory =>
      rw [hentry] at hfile
      cases hfile
    | file old =>
      rw [hentry] at hfile
      have hparts : q.parts ≠ [] := by
        intro hnil
        have hkey : key = [] := by
          rw [Disk.locate, hnil, if_neg (by simpa using hroot)] at hlocate
          exact (Except.ok.inj hlocate).symm
        rw [hkey] at hentry
        cases hentry
      have hlast := Disk.getLast?_of_locate hparts hname hlocate
      obtain ⟨bytes', hthere, hsame⟩ := h.files key old hentry
      have hkept : ¬EndsGenerated key := by
        rw [EndsGenerated, hlast, Option.getD_some]
        intro hends
        rw [isGenerated, hends] at hgenerated
        cases hgenerated
      dsimp only [bind, Except.bind]
      rw [hthere, hsame hkept]
      exact hfile

/-- If all paths can be read on a disk, nothing is read that it does not hold. -/
theorem readEach_of_readText {ps : List Path} {found : List (Path × Found)}
    (h : ∀ p ∈ ps, ∀ text, readText disk cwd p = .ok text → readText disk' cwd p = .ok text)
    (hread : (readEach disk cwd ps).outcome = .ok found) :
    readEach disk' cwd ps = readEach disk cwd ps := by
  induction ps generalizing found with
  | nil => rfl
  | cons p rest ih =>
    rw [List.forall_mem_cons] at h
    rw [readEach, Traced.outcome_bind, Traced.outcome_lift] at hread
    obtain ⟨text, htext, hread⟩ := exists_of_bind_eq_ok hread
    rw [Traced.outcome_bind, Traced.outcome_log, Except.bind, Traced.outcome_bind] at hread
    obtain ⟨first, -, hread⟩ := exists_of_bind_eq_ok hread
    rw [Traced.outcome_bind] at hread
    obtain ⟨others, hothers, -⟩ := exists_of_bind_eq_ok hread
    rw [readEach, readEach, htext, h.1 text htext, ih h.2 hothers]

/-- If sources can be read, the same is read from them, with the same messages, on a disk on which
nothing has changed for a reader. -/
theorem readPaths_of_keepsSources {set : SourceSet} (h : KeepsSources disk disk')
    (hpaths : ∀ p ∈ paths, IsSource disk cwd p)
    (hread : (readPaths disk cwd true paths).outcome = .ok set) :
    readPaths disk' cwd true paths = readPaths disk cwd true paths := by
  rw [readPaths, Traced.outcome_bind] at hread
  obtain ⟨found, hfound, -⟩ := exists_of_bind_eq_ok hread
  rw [readPaths, readPaths, expandPaths_of_keepsSources h hpaths,
    readEach_of_readText ?_ hfound]
  intro q hq text htext
  obtain ⟨hroot, hname, hgenerated⟩ := isSource_of_mem_expandPaths hpaths hq
  rw [readText] at htext ⊢
  cases hbytes : disk.readBytes cwd q with
  | error fault =>
    rw [hbytes] at htext
    cases htext
  | ok bytes =>
    rw [hbytes] at htext
    rw [readBytes_of_keepsSources h hroot hname hgenerated hbytes]
    exact htext

end Source

end Backfield
