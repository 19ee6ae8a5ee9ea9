import Backfield.Proofs.Source.Expansion
import Backfield.Proofs.Source.Scopes

/-!
# Directives of several files

Every file is read in a scope of its own.  What a using directive brings into scope is in the
fragments of its own file that it stands before, and a global one is a directive like any other: it
does not reach the other files.

* `Place.StandsIn.isUnder_iff` says which directives are in scope at a place.
* `outcome_readEach` and `readEach_eq_ok` take the reading of several files apart.
* `globalsReach_iff` says when the global directives of some files are in all of their fragments
  nevertheless: when each class stands under a directive of its own file that brings in the same.
* `not_globalsReach_twoFiles` is a global directive that does not reach a second file.
-/

namespace Backfield.Source

open CSharp (Declaration SourceUnit)

variable {declarations : List Declaration} {place : Place}

/-! ## Directives at a place -/

/-- The place stands under a directive that reads as this one. -/
def Place.IsUnder (declarations : List Declaration) (directive : UsingDirective) (place : Place) :
    Prop :=
  ∃ earlier around text, Precedes earlier place.position ∧
    Stands declarations earlier around (.usingDirective text) ∧
    UsingDirective.ofText? text = some directive

theorem Place.StandsIn.isUnder_iff (h : place.StandsIn declarations) (directive : UsingDirective) :
    place.IsUnder declarations directive ↔
      ∃ b ∈ place.around, b.directive? = some directive := by
  constructor
  · rintro ⟨earlier, around, text, hearlier, hstands, hread⟩
    obtain ⟨back, haround⟩ := h.exists_eq_append hstands hearlier
    exact ⟨.directive text, haround ▸ List.mem_append_right _ List.mem_cons_self, hread⟩
  · rintro ⟨b, hb, hread⟩
    cases b with
    | directive text =>
      obtain ⟨front, back, haround⟩ := List.append_of_mem hb
      obtain ⟨earlier, hearlier, hstands⟩ := h.directive_iff.mp ⟨back, haround⟩
      exact ⟨earlier, front, text, hearlier, hstands, hread⟩
    | space name => cases hread
    | type name => cases hread
    | conditional => cases hread

theorem Bearing.plain?_eq_some {b : Bearing} {name : String} :
    b.plain? = some name ↔ b.directive? = some (.plain name) := by
  rw [plain?, Option.bind_eq_some_iff]
  constructor
  · rintro ⟨directive, hdirective, hplain⟩
    cases directive <;> cases hplain
    exact hdirective
  · exact fun h => ⟨_, h, rfl⟩

theorem Bearing.alias?_eq_some {b : Bearing} {entry : String × String} :
    b.alias? = some entry ↔ b.directive? = some (.aliased entry.1 entry.2) := by
  rw [alias?, Option.bind_eq_some_iff]
  constructor
  · rintro ⟨directive, hdirective, halias⟩
    cases directive <;> cases halias
    exact hdirective
  · exact fun h => ⟨_, h, rfl⟩

/-- The fragment has what the directive brings into scope: a namespace, or some meaning of an
alias. -/
def HasInScope (f : Fragment) : UsingDirective → Prop
  | .statics => True
  | .plain name => name ∈ f.usings
  | .aliased name _ => name ∈ f.aliases.map Prod.fst

/-- The place stands under a directive that brings in the same. -/
def Place.Meets (declarations : List Declaration) (place : Place) : UsingDirective → Prop
  | .statics => True
  | .plain name => place.IsUnder declarations (.plain name)
  | .aliased name _ => ∃ target, place.IsUnder declarations (.aliased name target)

/-- A fragment has in scope what the directives before its class bring there. -/
theorem Place.StandsIn.hasInScope_iff (h : place.StandsIn declarations) {path : String}
    {f : Fragment} (hread : place.IsReadAs path f) (directive : UsingDirective) :
    HasInScope f directive ↔ place.Meets declarations directive := by
  cases directive with
  | statics => exact Iff.rfl
  | plain name =>
    rw [HasInScope, Place.Meets, h.isUnder_iff, hread.usings, List.mem_eraseDups,
      List.mem_filterMap]
    simp only [Bearing.plain?_eq_some]
  | aliased name target =>
    simp only [HasInScope, Place.Meets, h.isUnder_iff, hread.aliasNames, List.mem_eraseDups,
      List.mem_map, List.mem_filterMap, Bearing.alias?_eq_some]
    constructor
    · rintro ⟨entry, ⟨b, hb, hdirective⟩, rfl⟩
      exact ⟨entry.2, b, hb, hdirective⟩
    · rintro ⟨target, b, hb, hdirective⟩
      exact ⟨(name, target), ⟨b, hb, hdirective⟩, rfl⟩

/-! ## Several files -/

/-- The declarations of a file that has been read, given beside its path. -/
def declarationsOf (source : Path × String) : List Declaration :=
  (SourceUnit.ofText source.2).declarations

/-- The text of a file, beside its path. -/
def readSource (disk : Disk) (cwd : Key) (p : Path) : Except Error (Path × String) :=
  (readText disk cwd p).map (Prod.mk p)

theorem mapM_readSource_eq_ok {disk : Disk} {cwd : Key} {paths : List Path}
    {sources : List (Path × String)} (h : paths.mapM (readSource disk cwd) = .ok sources) :
    paths = sources.map Prod.fst ∧
      ∀ source ∈ sources, readText disk cwd source.1 = .ok source.2 := by
  induction paths generalizing sources with
  | nil =>
    cases h
    exact ⟨rfl, fun _ hsource => absurd hsource List.not_mem_nil⟩
  | cons p rest ih =>
    rw [List.mapM_cons] at h
    obtain ⟨source, hsource, h⟩ := exists_of_bind_eq_ok h
    obtain ⟨others, hothers, h⟩ := exists_of_bind_eq_ok h
    obtain ⟨code, hcode, rfl⟩ := exists_of_map_eq_ok hsource
    cases h
    obtain ⟨hpaths, htexts⟩ := ih hothers
    exact ⟨congrArg (p :: ·) hpaths, List.forall_mem_cons.mpr ⟨hcode, htexts⟩⟩

/-- What a file declares that has been read, beside its path. -/
def visited (source : Path × String) : Path × Found :=
  (source.1, visitAll source.1.text {} (declarationsOf source))

/-- Files are read one after the other, until one cannot be read. -/
theorem outcome_readEach (disk : Disk) (cwd : Key) (paths : List Path) :
    (readEach disk cwd paths).outcome =
      (paths.mapM (readSource disk cwd)).map (List.map visited) := by
  induction paths with
  | nil => rfl
  | cons p rest ih =>
    rw [readEach, Traced.outcome_bind, Traced.outcome_lift, List.mapM_cons, readSource]
    cases readText disk cwd p with
    | error e => rfl
    | ok code =>
      simp only [Except.bind, Traced.outcome_bind, Traced.outcome_log, outcome_read, ih]
      cases rest.mapM (readSource disk cwd) with
      | error e => rfl
      | ok sources => rfl

/-- Files that can all be read declare what their texts do, one after the other. -/
theorem readEach_eq_ok {disk : Disk} {cwd : Key} {paths : List Path} {all : List (Path × Found)}
    (h : (readEach disk cwd paths).outcome = .ok all) :
    ∃ sources : List (Path × String), paths = sources.map Prod.fst ∧
      (∀ source ∈ sources, readText disk cwd source.1 = .ok source.2) ∧
      all = sources.map visited := by
  rw [outcome_readEach] at h
  obtain ⟨sources, hsources, rfl⟩ := exists_of_map_eq_ok h
  obtain ⟨hpaths, htexts⟩ := mapM_readSource_eq_ok hsources
  exact ⟨sources, hpaths, htexts, rfl⟩

/-- The classes of some files, each beside its file, in order. -/
def classesOfEach (sources : List (Path × String)) : List ((Path × String) × Place) :=
  sources.flatMap fun source => (classesIn source.2).map fun place => (source, place)

/-- The place is where the fragment was read. -/
def IsReadAt (entry : (Path × String) × Place) (f : Fragment) : Prop :=
  entry.2.StandsIn (declarationsOf entry.1) ∧ entry.2.IsReadAs entry.1.1.text f

theorem forall₂_isReadAt (sources : List (Path × String)) :
    List.Forall₂ IsReadAt (classesOfEach sources)
      (sources.flatMap fun source => fragmentsIn source.2 source.1.text) := by
  induction sources with
  | nil => exact List.Forall₂.nil
  | cons source rest ih =>
    rw [classesOfEach, List.flatMap_cons, List.flatMap_cons]
    refine List.rel_append ?_ ih
    rw [fragmentsIn_eq, List.forall₂_map_left_iff, List.forall₂_map_right_iff, List.forall₂_same]
    intro place hplace
    exact ⟨(mem_classesIn_iff.mp hplace).1, place.isReadAs_fragment _⟩

/-! ## Global directives -/

/-- Partners have a property all together. -/
theorem forall_mem_iff_of_forall₂ {α β : Type} {P : α → Prop} {Q : β → Prop} {as : List α}
    {bs : List β} (h : List.Forall₂ (fun a b => Q b ↔ P a) as bs) :
    (∀ b ∈ bs, Q b) ↔ ∀ a ∈ as, P a := by
  induction h with
  | nil => simp
  | cons hab _ ih => rw [List.forall_mem_cons, List.forall_mem_cons, hab, ih]

/-- The directive begins with the word `global`. -/
def IsGlobal (text : String) : Prop :=
  (UsingDirective.afterWord? "global" (Text.collapse text).toList).isSome = true

/-- A directive is global in one of the files. -/
def HasGlobal (sources : List (Path × String)) (directive : UsingDirective) : Prop :=
  ∃ source ∈ sources, ∃ position around text,
    Stands (declarationsOf source) position around (.usingDirective text) ∧ IsGlobal text ∧
      UsingDirective.ofText? text = some directive

/-- What is global in one of the files is in scope in all fragments of all files. -/
def GlobalsReach (sources : List (Path × String)) (fragments : List Fragment) : Prop :=
  ∀ directive, HasGlobal sources directive → ∀ f ∈ fragments, HasInScope f directive

/-- The fragments of some files have in scope what the directives of their own file bring there.
So the global directives reach all of them exactly when each class stands under a directive of its
own file that brings in the same. -/
theorem globalsReach_iff {disk : Disk} {cwd : Key} {excludeGenerated : Bool} {paths : List Path}
    {set : SourceSet} (hread : (readPaths disk cwd excludeGenerated paths).outcome = .ok set) :
    ∃ sources : List (Path × String), set.paths = sources.map Prod.fst ∧
      (∀ source ∈ sources, readText disk cwd source.1 = .ok source.2) ∧
      List.Forall₂ IsReadAt (classesOfEach sources) set.fragments ∧
      List.Forall₂ (fun entry f => ∀ directive,
          HasInScope f directive ↔ entry.2.Meets (declarationsOf entry.1) directive)
        (classesOfEach sources) set.fragments ∧
      (GlobalsReach sources set.fragments ↔ ∀ directive, HasGlobal sources directive →
        ∀ entry ∈ classesOfEach sources, entry.2.Meets (declarationsOf entry.1) directive) := by
  rw [readPaths, Traced.outcome_bind] at hread
  obtain ⟨all, hall, hset⟩ := exists_of_bind_eq_ok hread
  obtain ⟨sources, -, htexts, rfl⟩ := readEach_eq_ok hall
  have hfragments : set.fragments =
      sources.flatMap fun source => fragmentsIn source.2 source.1.text := by
    cases hset
    rw [List.flatMap_map]
    rfl
  have hpaths : set.paths = sources.map Prod.fst := by
    cases hset
    rw [List.map_map]
    rfl
  have hplaces : List.Forall₂ IsReadAt (classesOfEach sources) set.fragments :=
    hfragments ▸ forall₂_isReadAt sources
  have hscopes := hplaces.imp fun entry f hentry => hentry.1.hasInScope_iff hentry.2
  refine ⟨sources, hpaths, htexts, hplaces, hscopes, ?_⟩
  refine forall_congr' fun directive => imp_congr_right fun _ => ?_
  exact forall_mem_iff_of_forall₂ (hscopes.imp fun entry f h => h directive)

/-! ## Two files -/

/-- A file with a global directive, and one that comes after it. -/
def twoSources : List (Path × String) :=
  [(⟨"", ["a.cs"]⟩, "global using N;\nclass A \x7b \x7d\n"),
    (⟨"", ["b.cs"]⟩, "class C \x7b \x7d\n")]

def twoFiles : Disk := ⟨(["w"], .directory) ::
  twoSources.map fun source => ("w" :: source.1.parts, .file (Text.Utf8.encode source.2))⟩

theorem expandPaths_twoFiles :
    expandPaths twoFiles ["w"] true (twoSources.map Prod.fst) = twoSources.map Prod.fst := by
  have hfound : (twoSources.map Prod.fst).flatMap (pathsUnder twoFiles ["w"]) =
      twoSources.map Prod.fst := by
    decide +kernel
  have hkept : (twoSources.map Prod.fst).filter (!isGenerated ·) = twoSources.map Prod.fst := by
    decide +kernel
  have hsorted : (twoSources.map Prod.fst).Pairwise fun p q => p.le q = true := by
    decide
  simp only [expandPaths, hfound, hkept, if_true, List.mergeSort_of_pairwise hsorted]
  decide

/-- What is read from the two files. -/
theorem readPaths_twoFiles :
    (readPaths twoFiles ["w"] true (twoSources.map Prod.fst)).outcome = .ok {
      fragments := [
        { name := "A", usings := ["N"], path := "a.cs" },
        { name := "C", path := "b.cs" }]
      names := ["A", "C"]
      paths := twoSources.map Prod.fst } := by
  rw [readPaths, expandPaths_twoFiles]
  decide +kernel

/-- The class of the second file stands under no directive that brings in the namespace. -/
theorem globalsReach_iff_twoFiles :
    ∃ sources, twoSources.map Prod.fst = sources.map Prod.fst ∧
      ∃ entry ∈ classesOfEach sources, ¬entry.2.Meets (declarationsOf entry.1) (.plain "N") := by
  obtain ⟨sources, hpaths, -, -, hscopes, -⟩ := globalsReach_iff readPaths_twoFiles
  obtain ⟨entry, hentry, hscope⟩ :=
    exists_left_of_mem hscopes (List.mem_cons_of_mem _ List.mem_cons_self)
  refine ⟨sources, hpaths, entry, hentry, fun hmeets => ?_⟩
  exact absurd ((hscope (.plain "N")).mpr hmeets) List.not_mem_nil

/-- The declarations begin with this directive. -/
def beginsWith (text : String) : List Declaration → Bool
  | .usingDirective own :: _ => own == text
  | _ => false

theorem stands_of_beginsWith {text : String} (h : beginsWith text declarations = true) :
    Stands declarations [0] [] (.usingDirective text) := by
  unfold beginsWith at h
  split at h
  · rw [← beq_iff_eq.mp h]
    exact Stands.here
  · cases h

/-- The global directive of the first file does not reach the second one. -/
theorem not_globalsReach_twoFiles :
    ∃ set, (readPaths twoFiles ["w"] true (twoSources.map Prod.fst)).outcome = .ok set ∧
      (∀ source ∈ twoSources, readText twoFiles ["w"] source.1 = .ok source.2) ∧
      HasGlobal twoSources (.plain "N") ∧ ¬GlobalsReach twoSources set.fragments := by
  have hglobal : HasGlobal twoSources (.plain "N") := by
    have hbegins : beginsWith "global using N;"
        (SourceUnit.ofText "global using N;\nclass A \x7b \x7d\n").declarations = true := by
      decide +kernel
    refine ⟨_, List.mem_cons_self, [0], [], "global using N;", stands_of_beginsWith hbegins, ?_, ?_⟩
    · unfold IsGlobal
      decide +kernel
    · decide +kernel
  refine ⟨_, readPaths_twoFiles, by decide +kernel, hglobal, fun hreach => ?_⟩
  have hscope := hreach _ hglobal _ (List.mem_cons_of_mem _ List.mem_cons_self)
  exact absurd hscope List.not_mem_nil

end Backfield.Source
