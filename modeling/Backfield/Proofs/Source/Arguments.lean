import Mathlib.Logic.Relation
import Backfield.Proofs.Disk.Spelling
import Backfield.Proofs.Source.Globals

/-!
# Lists of arguments

The files to read are given as texts, some of which lead to directories.  What is read depends on
which paths these texts stand for together, and not on how they are given.

* `Regroups` is one change of such a list that leaves the paths as they are: another order, a
  repeat, another way of writing, or something below a directory that is there already.
* `standFor_iff_of_regroups` says so for one change; `Relation.EqvGen` are any number of them.
* `outcome_readPaths` is what is read from the paths that are found, told by what is read from each
  file alone.
* `expandPaths_canonical` puts these together: in order and each once, the same for all lists that
  stand for the same paths, and read alike.
-/

namespace Backfield

/-! ## Names on a disk -/

namespace Path

/-- What an entry of a directory can be called. -/
def IsName (part : String) : Prop := isPart part = true ∧ part ≠ ".." ∧ '/' ∉ part.toList

instance : DecidablePred IsName := fun part =>
  inferInstanceAs (Decidable (isPart part = true ∧ part ≠ ".." ∧ '/' ∉ part.toList))

end Path

namespace Disk

variable {disk : Disk} {cwd key : Key} {p : Path} {rest : List String}

/-- All that is on the disk is called what it can be called. -/
def IsNamed (disk : Disk) : Prop := ∀ e ∈ disk.entries, ∀ part ∈ e.1, Path.IsName part

instance (disk : Disk) : Decidable disk.IsNamed :=
  inferInstanceAs (Decidable (∀ e ∈ disk.entries, ∀ part ∈ e.1, Path.IsName part))

theorem IsNamed.isName {part : String} (hnamed : disk.IsNamed) (hthere : disk.get? key ≠ none)
    (hpart : part ∈ key) : Path.IsName part := by
  have hkey : key ≠ [] := List.ne_nil_of_mem hpart
  obtain ⟨e, he, rfl⟩ := List.mem_map.mp
    (mem_keys_of_get? hkey (Option.isSome_iff_ne_none.mpr hthere))
  exact hnamed e he part hpart

/-- From a directory the components of what is below it lead there. -/
theorem walk_of_there (htree : View.IsTree disk.get?) (hnamed : disk.IsNamed)
    (hdirectory : disk.get? key = some .directory) (hthere : disk.get? (key ++ rest) ≠ none) :
    disk.walk key rest = .ok (key ++ rest) := by
  have hdots : ".." ∉ rest := fun hmem =>
    (hnamed.isName hthere (List.mem_append_right key hmem)).2.1 rfl
  have hparent : disk.get? (key ++ rest.dropLast) = some .directory := by
    by_cases hrest : rest = []
    · rwa [hrest, List.dropLast_nil, List.append_nil]
    · have hshorter : rest.dropLast ≠ rest := fun heq => by
        have hlength := congrArg List.length heq
        have hpositive := List.length_pos_iff.mpr hrest
        rw [List.length_dropLast] at hlength
        omega
      refine htree.directory_of_isPrefix hthere ?_ (by simpa using hshorter)
      exact (List.prefix_append_right_inj _).mpr (List.dropLast_prefix rest)
  rcases walk_cases htree hdirectory hdots with ⟨hwalk, -⟩ | ⟨-, hfile⟩ | ⟨-, hmissing, -⟩
  · exact hwalk
  · exact absurd hfile (htree.not_fileOn_of_directory hparent)
  · rw [hparent] at hmissing
    cases hmissing

theorem locate_of_there (htree : View.IsTree disk.get?) (hnamed : disk.IsNamed)
    (hlocate : disk.locate cwd p = .ok key) (hdirectory : disk.get? key = some .directory)
    (hthere : disk.get? (key ++ rest) ≠ none) :
    disk.locate cwd { p with parts := p.parts ++ rest } = .ok (key ++ rest) := by
  rw [locate] at hlocate ⊢
  rw [walk_append, hlocate]
  exact walk_of_there htree hnamed hdirectory hthere

end Disk

namespace Source

variable {disk : Disk} {cwd : Key} {p q : Path} {texts others : List String}

/-! ## Lists that stand for the same paths -/

/-- The texts stand for the path: one of them does. -/
def StandFor (disk : Disk) (cwd : Key) (texts : List String) (p : Path) : Prop :=
  ∃ text ∈ texts, p ∈ pathsUnder disk cwd (Path.ofText text)

/-- The second path begins like the first, which leads to a directory, and goes on to a directory
below it or to a file below it that is named like a source file. -/
def LiesUnder (disk : Disk) (cwd : Key) (p q : Path) : Prop :=
  ∃ key rest, disk.locate cwd p = .ok key ∧ disk.get? key = some .directory ∧
    rest ≠ [] ∧ q = { p with parts := p.parts ++ rest } ∧
    (disk.get? (key ++ rest) = some .directory ∨
      (∃ bytes, disk.get? (key ++ rest) = some (.file bytes)) ∧
        Text.endsWith (rest.getLast?.getD "") sourceSuffix = true)

/-- One change of a list of texts that leaves what they stand for. -/
inductive Regroups (disk : Disk) (cwd : Key) : List String → List String → Prop
  | permuted {texts others : List String} (h : texts.Perm others) : Regroups disk cwd texts others
  | repeated {text : String} {texts : List String} (h : text ∈ texts) :
      Regroups disk cwd texts (text :: texts)
  | respelled {text other : String} (texts : List String)
      (h : Path.Respells text.toList other.toList) :
      Regroups disk cwd (text :: texts) (other :: texts)
  | below {directory text : String} {texts : List String} (hmem : directory ∈ texts)
      (h : LiesUnder disk cwd (Path.ofText directory) (Path.ofText text)) :
      Regroups disk cwd texts (text :: texts)

/-- What is found below a directory is found below one that is above it. -/
theorem LiesUnder.subset (htree : View.IsTree disk.get?) (hnamed : disk.IsNamed)
    (h : LiesUnder disk cwd p q) : pathsUnder disk cwd q ⊆ pathsUnder disk cwd p := by
  obtain ⟨key, rest, hlocate, hdirectory, hrest, rfl, hthere⟩ := h
  have hne : disk.get? (key ++ rest) ≠ none := by
    rcases hthere with hdown | ⟨⟨bytes, hfile⟩, -⟩
    · simp [hdown]
    · simp [hfile]
  have hbelow := Disk.locate_of_there htree hnamed hlocate hdirectory hne
  intro o ho
  rw [mem_pathsUnder hlocate hdirectory]
  rcases hthere with hdown | ⟨⟨bytes, hfile⟩, hsuffix⟩
  · obtain ⟨more, hmore, hthere, hsuffix, rfl⟩ := (mem_pathsUnder hbelow hdown).mp ho
    refine ⟨rest ++ more, by simp [hrest], by rwa [← List.append_assoc], ?_, ?_⟩
    · rwa [List.getLast?_append_of_ne_nil _ hmore]
    · rw [List.append_assoc]
  · rw [pathsUnder_of_not_directory (by simp [Disk.entry?, hbelow, hfile]),
      List.mem_singleton] at ho
    exact ⟨rest, hrest, hne, hsuffix, ho⟩

/-- One change leaves what the texts stand for. -/
theorem standFor_iff_of_regroups (htree : View.IsTree disk.get?) (hnamed : disk.IsNamed)
    (h : Regroups disk cwd texts others) :
    StandFor disk cwd texts p ↔ StandFor disk cwd others p := by
  have hcons : ∀ {text : String} {texts : List String}, StandFor disk cwd (text :: texts) p ↔
      p ∈ pathsUnder disk cwd (Path.ofText text) ∨ StandFor disk cwd texts p := by
    simp [StandFor]
  cases h with
  | permuted h => exact exists_congr fun text => and_congr_left fun _ => h.mem_iff
  | @repeated text _ hmem =>
    rw [hcons]
    exact ⟨Or.inr, fun h => h.elim (fun htext => ⟨text, hmem, htext⟩) id⟩
  | respelled texts h => rw [hcons, hcons, Path.ofText_eq_of_respells h]
  | @below directory text _ hmem h =>
    rw [hcons]
    have hdirectory : p ∈ pathsUnder disk cwd (Path.ofText text) → StandFor disk cwd texts p :=
      fun htext => ⟨directory, hmem, h.subset htree hnamed htext⟩
    exact ⟨Or.inr, fun hp => hp.elim hdirectory id⟩

/-- Any number of changes leaves what the texts stand for. -/
theorem standFor_iff_of_eqvGen (htree : View.IsTree disk.get?) (hnamed : disk.IsNamed)
    (h : Relation.EqvGen (Regroups disk cwd) texts others) :
    StandFor disk cwd texts p ↔ StandFor disk cwd others p := by
  induction h with
  | rel _ _ h => exact standFor_iff_of_regroups htree hnamed h
  | refl _ => exact Iff.rfl
  | symm _ _ _ ih => exact ih.symm
  | trans _ _ _ _ _ ih ih' => exact ih.trans ih'

/-! ## The paths that are found -/

section

variable {excludeGenerated : Bool}

theorem mem_expandPaths_ofTexts :
    p ∈ expandPaths disk cwd excludeGenerated (texts.map Path.ofText) ↔
      StandFor disk cwd texts p ∧ (excludeGenerated && isGenerated p) = false := by
  rw [mem_expandPaths, StandFor]
  simp only [List.mem_map, exists_exists_and_eq_and]

theorem isProper_of_mem_pathsUnder (hnamed : disk.IsNamed) (hp : p.IsProper)
    (hq : q ∈ pathsUnder disk cwd p) : q.IsProper := by
  rcases eq_or_exists_of_mem_pathsUnder hq with rfl | ⟨key, rest, -, -, hthere, -, rfl⟩
  · exact hp
  · refine ⟨hp.root, fun part hpart => ?_⟩
    rcases List.mem_append.mp hpart with hfront | hrest
    · exact hp.parts part hfront
    · exact (hnamed.isName hthere (List.mem_append_right key hrest)).2.2

/-- The paths that are found are told by what they are ordered by. -/
theorem eq_of_sortKey_eq_of_mem_expandPaths (hnamed : disk.IsNamed) :
    ∀ p ∈ expandPaths disk cwd excludeGenerated (texts.map Path.ofText),
      ∀ q ∈ expandPaths disk cwd excludeGenerated (texts.map Path.ofText),
        p.sortKey = q.sortKey → p = q := by
  have hproper : ∀ p ∈ expandPaths disk cwd excludeGenerated (texts.map Path.ofText),
      p.IsProper := by
    intro p hp
    obtain ⟨text, -, hp⟩ := (mem_expandPaths_ofTexts.mp hp).1
    exact isProper_of_mem_pathsUnder hnamed (Path.isProper_ofText text) hp
  exact fun p hp q hq => (hproper p hp).eq_of_sortKey_eq (hproper q hq)

theorem pairwise_lt_expandPaths (hnamed : disk.IsNamed) :
    (expandPaths disk cwd excludeGenerated (texts.map Path.ofText)).Pairwise
      fun p q => p.lt q = true := by
  refine (pairwise_le_expandPaths.and nodup_expandPaths).imp_of_mem fun hp hq hpq => ?_
  refine Path.lt_of_le hpq.1 fun hkey => hpq.2 ?_
  exact eq_of_sortKey_eq_of_mem_expandPaths hnamed _ hp _ hq hkey

/-- Texts that stand for the same paths are expanded to the same list. -/
theorem expandPaths_eq_of_standFor_iff (hnamed : disk.IsNamed)
    (h : ∀ p, StandFor disk cwd texts p ↔ StandFor disk cwd others p) :
    expandPaths disk cwd excludeGenerated (texts.map Path.ofText) =
      expandPaths disk cwd excludeGenerated (others.map Path.ofText) := by
  refine Path.eq_of_pairwise_le (eq_of_sortKey_eq_of_mem_expandPaths hnamed)
    pairwise_le_expandPaths pairwise_le_expandPaths nodup_expandPaths nodup_expandPaths fun p => ?_
  rw [mem_expandPaths_ofTexts, mem_expandPaths_ofTexts, h p]

/-- Generated files are left out of the list, and nothing else is. -/
theorem expandPaths_exclude (hnamed : disk.IsNamed) :
    expandPaths disk cwd true (texts.map Path.ofText) =
      (expandPaths disk cwd false (texts.map Path.ofText)).filter (!isGenerated ·) := by
  refine Path.eq_of_pairwise_le (eq_of_sortKey_eq_of_mem_expandPaths hnamed)
    pairwise_le_expandPaths (pairwise_le_expandPaths.filter _) nodup_expandPaths
    (nodup_expandPaths.filter _) fun p => ?_
  rw [List.mem_filter, mem_expandPaths_ofTexts, mem_expandPaths_ofTexts]
  simp

end

/-! ## What is read from them -/

/-- What a file declares by itself: its classes, and the full names of its types. -/
def readFile (disk : Disk) (cwd : Key) (p : Path) : Except Error (List Fragment × List String) := do
  let code ← readText disk cwd p
  let fragments ← (readFragments code p.text).outcome
  let names ← (readNames code).outcome
  return (fragments, names)

/-- What some files declare, put together. -/
def SourceSet.unite (paths : List Path) (results : List (List Fragment × List String)) :
    SourceSet where
  fragments := results.flatMap Prod.fst
  names := (results.flatMap Prod.snd).eraseDups
  paths

/-- The classes of a text, and the full names of its types. -/
def declaredBy (source : Path × String) : List Fragment × List String :=
  ((visited source).2.fragments, (visited source).2.names.eraseDups)

/-- The names of a text do not depend on what the text is called. -/
theorem names_visitAll (path path' : String) (declarations : List CSharp.Declaration) :
    (visitAll path {} declarations).names = (visitAll path' {} declarations).names := by
  rw [visitAll_eq, visitAll_eq, found, found]

theorem readFile_eq (disk : Disk) (cwd : Key) (p : Path) :
    readFile disk cwd p = (readSource disk cwd p).map declaredBy := by
  rw [readFile, readSource]
  cases readText disk cwd p with
  | error e => rfl
  | ok code =>
    simp only [bind, Except.bind, outcome_readFragments, outcome_readNames,
      names_visitAll noPath p.text]
    rfl

theorem mapM_readFile_eq (disk : Disk) (cwd : Key) (paths : List Path) :
    paths.mapM (readFile disk cwd) =
      (paths.mapM (readSource disk cwd)).map (List.map declaredBy) := by
  induction paths with
  | nil => rfl
  | cons p rest ih =>
    rw [List.mapM_cons, List.mapM_cons, ih, readFile_eq]
    cases readSource disk cwd p with
    | error e => rfl
    | ok source =>
      cases rest.mapM (readSource disk cwd) with
      | error e => rfl
      | ok sources => rfl

/-- Repeats within each list can be dropped before the lists are joined. -/
theorem eraseDups_flatMap_eraseDups {α β : Type} [BEq β] [LawfulBEq β] (f : α → List β)
    (xs : List α) : (xs.flatMap fun x => (f x).eraseDups).eraseDups = (xs.flatMap f).eraseDups := by
  induction xs with
  | nil => rfl
  | cons x rest ih =>
    have hidem : ∀ ys : List β, ys.eraseDups.eraseDups = ys.eraseDups :=
      fun ys => Scan.eraseDups_of_nodup (Scan.nodup_eraseDups ys)
    rw [List.flatMap_cons, List.flatMap_cons, ← Scan.eraseDups_append_eraseDups, hidem, ih,
      Scan.eraseDups_append_eraseDups]

/-- What is read from some paths is what is read from each of the files that they stand for, put
together.  The first of these that cannot be read ends it. -/
theorem outcome_readPaths (disk : Disk) (cwd : Key) (excludeGenerated : Bool) (paths : List Path) :
    (readPaths disk cwd excludeGenerated paths).outcome =
      ((expandPaths disk cwd excludeGenerated paths).mapM (readFile disk cwd)).map
        (SourceSet.unite (expandPaths disk cwd excludeGenerated paths)) := by
  rw [readPaths, Traced.outcome_bind, outcome_readEach, mapM_readFile_eq]
  cases hsources : (expandPaths disk cwd excludeGenerated paths).mapM (readSource disk cwd) with
  | error e => rfl
  | ok sources =>
    have hfragments : (sources.map declaredBy).flatMap Prod.fst =
        (sources.map visited).flatMap fun p => p.2.fragments := by
      simp only [List.flatMap_map, declaredBy]
    have hnames : ((sources.map declaredBy).flatMap Prod.snd).eraseDups =
        ((sources.map visited).flatMap fun p => p.2.names).eraseDups := by
      simp only [List.flatMap_map, declaredBy, eraseDups_flatMap_eraseDups]
    have hpaths : expandPaths disk cwd excludeGenerated paths =
        (sources.map visited).map Prod.fst := by
      rw [List.map_map]
      exact (mapM_readSource_eq_ok hsources).1
    simp only [Except.map, SourceSet.unite, hfragments, hnames, hpaths]
    rfl

/-! ## Any list of texts -/

/-- The lists are expanded to the same paths, and the same is read from them. -/
structure ReadAlike (disk : Disk) (cwd : Key) (texts others : List String) : Prop where
  expanded : ∀ excludeGenerated, expandPaths disk cwd excludeGenerated (texts.map Path.ofText) =
    expandPaths disk cwd excludeGenerated (others.map Path.ofText)
  read : ∀ excludeGenerated, readPaths disk cwd excludeGenerated (texts.map Path.ofText) =
    readPaths disk cwd excludeGenerated (others.map Path.ofText)

theorem readAlike_of_standFor_iff (hnamed : disk.IsNamed)
    (h : ∀ p, StandFor disk cwd texts p ↔ StandFor disk cwd others p) :
    ReadAlike disk cwd texts others where
  expanded _ := expandPaths_eq_of_standFor_iff hnamed h
  read excludeGenerated := by
    rw [readPaths, readPaths, expandPaths_eq_of_standFor_iff hnamed h]

/-- Texts are expanded to a list of paths in order, each once.  The list depends on which paths they
stand for and on nothing else, so it stays as it is however the texts are regrouped.  Excluding
generated files takes these from the list.  What is read is what is read from each of the paths, put
together. -/
theorem expandPaths_canonical (htree : disk.IsTree) (hnamed : disk.IsNamed) (cwd : Key)
    (texts : List String) :
    (∀ excludeGenerated, (expandPaths disk cwd excludeGenerated (texts.map Path.ofText)).Pairwise
      fun p q => p.lt q = true) ∧
    expandPaths disk cwd true (texts.map Path.ofText) =
      (expandPaths disk cwd false (texts.map Path.ofText)).filter (!isGenerated ·) ∧
    (∀ others, (∀ p, StandFor disk cwd texts p ↔ StandFor disk cwd others p) →
      ReadAlike disk cwd texts others) ∧
    (∀ others, Relation.EqvGen (Regroups disk cwd) texts others →
      ReadAlike disk cwd texts others) ∧
    ∀ excludeGenerated, (readPaths disk cwd excludeGenerated (texts.map Path.ofText)).outcome =
      ((expandPaths disk cwd excludeGenerated (texts.map Path.ofText)).mapM
        (readFile disk cwd)).map
          (SourceSet.unite (expandPaths disk cwd excludeGenerated (texts.map Path.ofText))) := by
  refine ⟨fun _ => pairwise_lt_expandPaths hnamed, expandPaths_exclude hnamed,
    fun _ h => readAlike_of_standFor_iff hnamed h, fun others h => ?_,
    fun excludeGenerated => outcome_readPaths disk cwd excludeGenerated _⟩
  exact readAlike_of_standFor_iff hnamed fun _ =>
    standFor_iff_of_eqvGen (Disk.isTree_iff.mp htree) hnamed h

/-- A directory with a source file, a generated one and another directory in it. -/
def nestedDisk : Disk where
  entries := [(["w"], .directory), (["w", "src"], .directory),
    (["w", "src", "b.cs"], .file (Text.Utf8.encode "class B \x7b \x7d")),
    (["w", "src", "B.g.cs"], .file (Text.Utf8.encode "partial class B \x7b \x7d")),
    (["w", "src", "sub"], .directory),
    (["w", "src", "sub", "a.cs"], .file (Text.Utf8.encode "class A \x7b \x7d"))]

/-- The directory may be written with a dot, and the one in it may be given beside it. -/
theorem expandPaths_canonical_nestedDisk :
    nestedDisk.IsTree ∧ nestedDisk.IsNamed ∧
      ReadAlike nestedDisk ["w"] ["src"] ["./src", "src/sub"] := by
  have htree : nestedDisk.IsTree := by decide
  have hnamed : nestedDisk.IsNamed := by decide
  have hadded : Regroups nestedDisk ["w"] ["src"] ["src/sub", "src"] :=
    .below List.mem_cons_self
      ⟨["w", "src"], ["sub"], by decide, by decide, by decide, by decide, Or.inl (by decide)⟩
  have hswapped : Regroups nestedDisk ["w"] ["src/sub", "src"] ["src", "src/sub"] :=
    .permuted (List.Perm.swap _ _ _)
  have hdot : Path.Respells "src".toList "./src".toList :=
    Path.Respells.dot (Or.inl rfl) (Or.inr (by decide))
  have hgroups : Relation.EqvGen (Regroups nestedDisk ["w"]) ["src"] ["./src", "src/sub"] :=
    ((Relation.EqvGen.rel _ _ hadded).trans _ _ _ (.rel _ _ hswapped)).trans _ _ _
      (.rel _ _ (.respelled _ hdot))
  obtain ⟨-, -, -, halike, -⟩ := expandPaths_canonical htree hnamed ["w"] ["src"]
  exact ⟨htree, hnamed, halike _ hgroups⟩

end Source

end Backfield
