import Backfield.Proofs.CommandLine.DryRun
import Backfield.Proofs.Delivery.GeneratedFiles

/-!
# Runs that are repeated

A run that may overwrite files and leaves generated files out does the same again on the disk that
it has left, also where its output directory is one of its sources.

* `makes_of_admits` says that arguments make the same request on a disk on which their paths lead to
  what they should, and `settingsOf_of_readBytes` that its settings are the same.
* `Request.IsRepeatable` says what a request needs to be repeated, and `Request.HasLeft` what it has
  left then.
* `prepared_of_hasLeft` says that the second run prepares the same artifacts, and `perform_again`
  that it delivers them again.
* `run_again` is the result for whole runs.
-/

namespace Backfield.CommandLine

open Delivery (Holds IsGeneratedName fileOf filesOf pathOf)
open Source (IsSource KeepsSources)

variable {disk disk' : Disk} {cwd : Key} {interrupted : Bool} {r : Request}

/-! ## Arguments -/

/-- What may stand at a path that has been given in a role. -/
def PathRole.Admits : PathRole → Option Entry → Prop
  | .output, entry => ∀ bytes, entry ≠ some (.file bytes)
  | .config, entry => ∃ bytes, entry = some (.file bytes)
  | .source, entry => entry ≠ none

theorem checkPath_eq_ok_iff {role : PathRole} {text : String} {p : Path} :
    checkPath disk cwd role text = .ok p ↔
      p = resolvePath cwd text ∧ role.Admits (disk.entry? cwd (resolvePath cwd text)) := by
  rw [checkPath.eq_def]
  dsimp only
  generalize disk.entry? cwd (resolvePath cwd text) = entry
  rcases entry with _ | _ | bytes <;> cases role <;> simp [PathRole.Admits, eq_comm]

/-- The role of the value of an option. -/
def Parameter.role : Parameter → PathRole
  | .output => .output
  | .config => .config

theorem checkParameter_eq_ok_iff {a : Arguments} {p : Parameter} :
    checkParameter disk cwd a p = .ok () ↔ ∀ text, a.value? p = some text →
      p.role.Admits (disk.entry? cwd (resolvePath cwd text)) := by
  cases hvalue : a.value? p with
  | none => simp [checkParameter.eq_def, hvalue]
  | some text =>
    have hcheck : checkParameter disk cwd a p =
        (checkPath disk cwd p.role text).map fun _ => () := by
      rw [checkParameter.eq_def, hvalue]
      cases p <;> rfl
    rw [hcheck]
    constructor
    · intro h other hother
      obtain ⟨q, hq, -⟩ := exists_of_map_eq_ok h
      rw [← Option.some.inj hother]
      exact (checkPath_eq_ok_iff.mp hq).2
    · intro h
      rw [checkPath_eq_ok_iff.mpr ⟨rfl, h text rfl⟩]
      rfl

theorem mapM_checkPath_eq_ok_iff {role : PathRole} {texts : List String} {ps : List Path} :
    texts.mapM (checkPath disk cwd role) = .ok ps ↔
      ps = texts.map (resolvePath cwd) ∧
        ∀ text ∈ texts, role.Admits (disk.entry? cwd (resolvePath cwd text)) := by
  induction texts generalizing ps with
  | nil => simp [pure, Except.pure, eq_comm]
  | cons text rest ih =>
    rw [List.mapM_cons, List.map_cons, List.forall_mem_cons]
    constructor
    · intro h
      obtain ⟨p, hp, h⟩ := exists_of_bind_eq_ok h
      obtain ⟨others, hothers, h⟩ := exists_of_bind_eq_ok h
      obtain ⟨rfl, hadmits⟩ := checkPath_eq_ok_iff.mp hp
      obtain ⟨rfl, hrest⟩ := ih.mp hothers
      exact ⟨(Except.ok.inj h).symm, hadmits, hrest⟩
    · rintro ⟨rfl, hadmits, hrest⟩
      rw [checkPath_eq_ok_iff.mpr ⟨rfl, hadmits⟩, ih.mpr ⟨rfl, hrest⟩]
      rfl

/-- Arguments make the same request on a disk on which their paths lead to what their roles ask
for. -/
theorem makes_of_admits {a : Arguments} (h : a.Makes disk cwd r)
    (hadmits : ∀ role p, (role = .output → p = r.output) →
      PathRole.Admits role (disk.entry? cwd p) → role.Admits (disk'.entry? cwd p)) :
    a.Makes disk' cwd r := by
  obtain ⟨hoptions, hnamed, hsources, houtput, hconfig, hflags⟩ := h
  refine ⟨?_, hnamed, ?_, houtput, hconfig, hflags⟩
  · rw [Delivery.forM_eq_ok_iff] at hoptions ⊢
    intro p hp
    have hchecked := checkParameter_eq_ok_iff.mp (hoptions p hp)
    rw [checkParameter_eq_ok_iff]
    intro text htext
    refine hadmits p.role _ ?_ (hchecked text htext)
    intro hrole
    have hoption : p = .output := by
      cases p with
      | output => rfl
      | config => cases hrole
    rw [houtput, ← hoption, htext]
    rfl
  · obtain ⟨hresolved, hthere⟩ := mapM_checkPath_eq_ok_iff.mp hsources
    apply mapM_checkPath_eq_ok_iff.mpr
    refine ⟨hresolved, fun text htext => hadmits .source _ ?_ (hthere text htext)⟩
    intro hrole
    cases hrole

theorem isFull_resolvePath (cwd : Key) (text : String) : (resolvePath cwd text).IsFull := by
  refine ⟨?_, dots_not_mem_resolvePath cwd text⟩
  rw [resolvePath]
  split
  · show "/" ≠ ""
    decide
  · rename_i hroot
    exact fun heq => hroot (beq_iff_eq.mpr heq)

/-- The sources of a request are full paths, and something stands there. -/
theorem isSource_of_makes {a : Arguments} (h : a.Makes disk cwd r) :
    ∀ p ∈ r.sources, IsSource disk cwd p := by
  obtain ⟨hresolved, hthere⟩ := mapM_checkPath_eq_ok_iff.mp h.sources
  rw [hresolved]
  intro p hp
  obtain ⟨text, htext, rfl⟩ := List.mem_map.mp hp
  exact ⟨isFull_resolvePath cwd text, hthere text htext⟩

/-! ## Settings -/

/-- If settings can be read, the same are read from a disk that has the same bytes in their file. -/
theorem settingsOf_of_readBytes {settings : Settings} (h : settingsOf disk cwd r = .ok settings)
    (hbytes : ∀ p, r.config = some p → ∀ bytes, disk.readBytes cwd p = .ok bytes →
      disk'.readBytes cwd p = .ok bytes) :
    settingsOf disk' cwd r = settingsOf disk cwd r := by
  have hread : fileSettings disk' cwd r = fileSettings disk cwd r := by
    obtain ⟨read, -, hread, -⟩ := exists_of_settingsOf_eq_ok h
    rw [fileSettings] at hread
    rw [fileSettings, fileSettings]
    cases hconfig : r.config with
    | none => rfl
    | some p =>
      simp only [hconfig] at hread
      cases hfound : disk.readBytes cwd p with
      | error fault =>
        rw [hfound] at hread
        cases hread
      | ok bytes =>
        dsimp only
        rw [hbytes p hconfig bytes hfound, hfound]
  rw [settingsOf, settingsOf, hread]

/-! ## What a request has left -/

/-- The request may overwrite files and leaves generated files out.  Its artifacts have names of
generated files without directories, none of them takes the place of the settings file, and no
directory that is made is named like a source file. -/
structure Request.IsRepeatable (disk : Disk) (cwd : Key) (interrupted : Bool) (r : Request) :
    Prop where
  force : r.has .force = true
  excludes : r.has .includeGenerated = false
  real : r.has .dryRun = false
  ends : ∀ settings, settingsOf disk cwd r = .ok settings →
    Text.endsWith settings.artifactSuffix.display Source.generatedSuffix = true ∧
      Text.endsWith settings.markerArtifact.display Source.generatedSuffix = true
  names : ∀ settings artifacts,
    (prepared disk cwd r interrupted).outcome = .ok (settings, artifacts) →
      ∀ a ∈ artifacts, '/' ∉ a.name.display.toList
  config : ∀ settings artifacts,
    (prepared disk cwd r interrupted).outcome = .ok (settings, artifacts) →
      ∀ a ∈ artifacts, ∀ p, r.config = some p → p.parts ≠ (pathOf r.output a).parts
  directories : ∀ key, disk.get? key = none →
    (perform disk cwd r interrupted).disk.get? key = some .directory →
      Text.endsWith (key.getLast?.getD "") Source.sourceSuffix = false

/-- What a request has left on a disk: its artifacts, and nothing else that a reader sees. -/
structure Request.HasLeft (disk disk' : Disk) (cwd : Key) (r : Request)
    (artifacts : List Artifact) : Prop where
  leaves : Delivery.Leaves disk disk' cwd (filesOf r.output artifacts)
  names : ∀ a ∈ artifacts, IsGeneratedName a.name.display
  holds : ∀ a ∈ artifacts, Holds disk' cwd (fileOf r.output a)
  keeps : KeepsSources disk disk'
  /-- There is an artifact, for the marker. -/
  nonempty : artifacts ≠ []

variable {settings : Settings} {output : OutputSettings} {artifacts : List Artifact}
  {paths : List Path}

/-- Artifacts are those of a batch of what is read from the sources. -/
theorem exists_generate_of_artifactsOf
    (h : (artifactsOf disk cwd r interrupted settings).outcome = .ok artifacts) :
    ∃ set known moment,
      (Source.readPaths disk cwd (!r.has .includeGenerated) r.sources).outcome = .ok set ∧
        (Batch.generate settings known set.fragments moment).outcome = .ok artifacts := by
  rw [artifactsOf, Traced.outcome_bind] at h
  obtain ⟨set, hset, h⟩ := exists_of_bind_eq_ok h
  rw [Traced.outcome_bind] at h
  obtain ⟨known, -, hbatch⟩ := exists_of_bind_eq_ok h
  exact ⟨set, known, _, hset, hbatch⟩

theorem hasLeft_of_delivers (h : r.IsRepeatable disk cwd interrupted)
    (hdelivers : r.Delivers disk cwd interrupted output artifacts paths) :
    r.HasLeft disk (perform disk cwd r interrupted).disk cwd artifacts := by
  obtain ⟨settings, -, hprepared⟩ := hdelivers.prepared
  obtain ⟨hsettings, -, hartifacts⟩ := prepared_eq_ok_iff.mp hprepared
  obtain ⟨set, known, moment, -, hbatch⟩ := exists_generate_of_artifactsOf hartifacts
  obtain ⟨hsuffix, hmarker⟩ := h.ends settings hsettings
  obtain ⟨hnamed, -, hleaves⟩ := Delivery.leaves_deliver hdelivers.delivered
  have hdisk : (perform disk cwd r interrupted).disk =
      (Delivery.deliver output disk cwd r.output artifacts).disk := by
    rw [perform_of_delivers h.real hdelivers]
  rw [← hdisk] at hleaves
  have hnames := Delivery.isGeneratedName_of_generate hbatch hsuffix hmarker
    (h.names settings artifacts hprepared)
  have hholds := Delivery.holds_of_generate hbatch hnames hnamed hleaves
  refine ⟨hleaves, hnames, hholds, ?_, ?_⟩
  · exact Delivery.keepsSources_of_leaves hleaves hholds hnames h.directories
  · obtain ⟨classes, -, -, rfl⟩ := Batch.exists_classes_of_generate hbatch
    exact List.cons_ne_nil _ _

/-! ## The second run -/

/-- The artifacts stand in a directory. -/
theorem entry?_output_of_hasLeft (h : r.HasLeft disk disk' cwd artifacts) :
    disk'.entry? cwd r.output = some .directory := by
  obtain ⟨a, ha⟩ := List.exists_mem_of_ne_nil _ h.nonempty
  have hname := h.names a ha
  obtain ⟨key, hlocate, -⟩ := Delivery.exists_of_holds (h.holds a ha)
  have hparent := Disk.entry?_parent_of_locate (Delivery.parts_pathOf_ne_nil hname) hlocate
  rw [Delivery.parent_pathOf hname] at hparent
  exact hparent

/-- What has been given in a role is still fit for it. -/
theorem admits_of_hasLeft (h : r.HasLeft disk disk' cwd artifacts) (role : PathRole) (p : Path)
    (houtput : role = .output → p = r.output) (hadmits : role.Admits (disk.entry? cwd p)) :
    role.Admits (disk'.entry? cwd p) := by
  cases role with
  | output =>
    intro bytes
    rw [houtput rfl, entry?_output_of_hasLeft h]
    intro hfile
    cases hfile
  | config =>
    obtain ⟨bytes, hfile⟩ := hadmits
    obtain ⟨key, hlocate, hthere⟩ := Disk.exists_of_entry?_eq_some hfile
    obtain ⟨bytes', hstill, -⟩ := h.keeps.files key bytes hthere
    have hlocate' := Disk.locate_of_keepsDirectories h.keeps.directories hlocate
    refine ⟨bytes', ?_⟩
    rw [Disk.entry?, hlocate']
    exact hstill
  | source =>
    obtain ⟨entry, hentry⟩ := Option.ne_none_iff_exists'.mp hadmits
    obtain ⟨key, hlocate, hthere⟩ := Disk.exists_of_entry?_eq_some hentry
    have hlocate' := Disk.locate_of_keepsDirectories h.keeps.directories hlocate
    show disk'.entry? cwd p ≠ none
    rw [Disk.entry?, hlocate']
    apply h.keeps.ne_none
    rw [hthere]
    exact Option.some_ne_none entry

/-- The settings file has the same bytes. -/
theorem readBytes_of_hasLeft (h : r.HasLeft disk disk' cwd artifacts) {p : Path}
    {bytes : List UInt8} (hfull : p.IsFull) (houtput : r.output.IsFull)
    (hplace : ∀ a ∈ artifacts, p.parts ≠ (pathOf r.output a).parts)
    (hread : disk.readBytes cwd p = .ok bytes) : disk'.readBytes cwd p = .ok bytes := by
  rw [Disk.readBytes] at hread ⊢
  obtain ⟨key, hlocate, hfile⟩ := exists_of_bind_eq_ok hread
  -- What has changed is an artifact or was not there, and the settings file is neither.
  have hsame : disk'.get? key = disk.get? key := by
    by_contra hchanged
    rcases Delivery.changed_cases h.leaves hchanged with ⟨a, ha, hlocate'⟩ | ⟨hnone, -⟩
    · have hpath : (pathOf r.output a).IsFull := Delivery.isFull_pathOf houtput (h.names a ha)
      apply hplace a ha
      rw [← Disk.eq_parts_of_locate hfull hlocate, Disk.eq_parts_of_locate hpath hlocate']
    · rw [hnone] at hfile
      cases hfile
  rw [Disk.locate_of_keepsDirectories h.keeps.directories hlocate]
  dsimp only [bind, Except.bind]
  rw [hsame]
  exact hfile

/-- The same artifacts are prepared, with the same messages. -/
theorem prepared_of_hasLeft {a : Arguments} (hmakes : a.Makes disk cwd r)
    (hrepeatable : r.IsRepeatable disk cwd interrupted)
    (hprepared : (prepared disk cwd r interrupted).outcome = .ok (settings, artifacts))
    (h : r.HasLeft disk disk' cwd artifacts) :
    prepared disk' cwd r interrupted = prepared disk cwd r interrupted := by
  obtain ⟨hsettings, ⟨listed, hlisted⟩, hartifacts⟩ := prepared_eq_ok_iff.mp hprepared
  have hsettings' : settingsOf disk' cwd r = settingsOf disk cwd r := by
    refine settingsOf_of_readBytes hsettings fun p hp bytes hread => ?_
    have hfull : p.IsFull := by
      rw [hmakes.config] at hp
      obtain ⟨text, -, rfl⟩ := Option.map_eq_some_iff.mp hp
      exact isFull_resolvePath cwd text
    have houtput : r.output.IsFull := by
      rw [hmakes.output]
      exact isFull_resolvePath cwd _
    refine readBytes_of_hasLeft h hfull houtput (fun b hb => ?_) hread
    exact hrepeatable.config settings artifacts hprepared b hb p hp
  have hartifacts' : artifactsOf disk' cwd r interrupted settings =
      artifactsOf disk cwd r interrupted settings := by
    obtain ⟨set, -, -, hset, -⟩ := exists_generate_of_artifactsOf hartifacts
    rw [artifactsOf, artifactsOf]
    rw [hrepeatable.excludes, Bool.not_false] at hset ⊢
    rw [Source.readPaths_of_keepsSources h.keeps (isSource_of_makes hmakes) hset]
  have hlogged : loggedSettings disk' cwd r = loggedSettings disk cwd r := by
    rw [loggedSettings, loggedSettings, hsettings']
  have houtcome : (loggedSettings disk cwd r).outcome = .ok settings := by
    rw [loggedSettings, hsettings, Traced.outcome_bind, Traced.outcome_lift, Except.bind,
      Traced.outcome_bind, Traced.outcome_lift, hlisted]
    rfl
  rw [prepared, prepared, hlogged]
  apply Traced.bind_congr_of_outcome houtcome
  rw [hartifacts']

/-- With the flag, no delivery refuses a target that exists. -/
theorem mode_ne_refuse (hsettings : settingsOf disk cwd r = .ok settings)
    (hforce : r.has .force = true) (houtput : settings.output = .settings output) :
    output.mode ≠ .mode .refuse := by
  obtain ⟨output', heq, hmode⟩ := mayOverwrite_of_force hsettings hforce
  rw [houtput] at heq
  cases heq
  rw [hmode]
  intro hrefuse
  cases hrefuse

/-- A request that has been carried out is made and carried out again, with the same messages, and
nothing changes. -/
theorem perform_again {a : Arguments} {text : String} (hmakes : a.Makes disk cwd r)
    (h : r.IsRepeatable disk cwd interrupted)
    (hdone : (perform disk cwd r interrupted).output.outcome = .ok text) :
    let first := perform disk cwd r interrupted
    let again := perform first.disk cwd r interrupted
    a.Makes first.disk cwd r ∧ again.output = first.output ∧
      again.disk.get? = first.disk.get? := by
  intro first again
  obtain ⟨output, artifacts, paths, hdelivers⟩ := exists_delivers_of_perform h.real hdone
  have hleft : r.HasLeft disk first.disk cwd artifacts := hasLeft_of_delivers h hdelivers
  obtain ⟨settings, houtput, hprepared⟩ := hdelivers.prepared
  have hsame : prepared first.disk cwd r interrupted = prepared disk cwd r interrupted :=
    prepared_of_hasLeft hmakes h hprepared hleft
  have hfirst : first = _ := perform_of_delivers h.real hdelivers
  have hdisk : first.disk = (Delivery.deliver output disk cwd r.output artifacts).disk := by
    rw [hfirst]
  -- The first delivery has left all artifacts, so the second one finds each in its place.
  have hmode := mode_ne_refuse (prepared_eq_ok_iff.mp hprepared).1 h.force houtput
  have hholds := hleft.holds
  rw [hdisk] at hholds
  obtain ⟨hwritten, hview⟩ :=
    Delivery.deliver_again_of_isGeneratedName hmode hdelivers.delivered hleft.names hholds
  rw [← hdisk] at hwritten hview
  have hdelivers' : r.Delivers first.disk cwd interrupted output artifacts paths := by
    refine ⟨⟨settings, houtput, hsame ▸ hprepared⟩, ?_⟩
    rw [hwritten]
    exact hdelivers.delivered
  have hagain : again = _ := perform_of_delivers h.real hdelivers'
  refine ⟨makes_of_admits hmakes (admits_of_hasLeft hleft), ?_, ?_⟩
  · rw [hagain, hwritten, hsame, hfirst]
  · rw [hagain]
    exact hview

/-! ## Whole runs -/

/-- A run that may overwrite files and leaves generated files out, repeated on the disk that it has
left, ends well again.  It prints the same, with the time of day in the log as the second run has
it, and changes nothing. -/
theorem run_again (disk : Disk) (cwd : Key) (time time' : String) (interrupted : Bool)
    (args : List String) (hzero : (run disk cwd time interrupted args).exitCode = 0)
    (hrequest : ∀ r, requestOf? disk cwd args = some r → r.IsRepeatable disk cwd interrupted) :
    let first := run disk cwd time interrupted args
    let again := run first.disk cwd time' interrupted args
    again.exitCode = 0 ∧ again.stdout = first.stdout ∧
      again.stderr = (run disk cwd time' interrupted args).stderr ∧
      again.disk.get? = first.disk.get? := by
  intro first again
  cases hr : requestOf? disk cwd args with
  | none =>
    obtain ⟨result, hdisk, hresult⟩ := exists_of_no_request hr
    have hfirst : first = result := hresult time interrupted
    have hagain : again = result := by
      show run first.disk cwd time' interrupted args = result
      rw [hfirst, hdisk, hresult]
    have hexit : result.exitCode = 0 := hfirst ▸ hzero
    rw [hagain, hfirst, hresult]
    exact ⟨hexit, rfl, rfl, rfl⟩
  | some r =>
    have hfirst : ∀ time, run disk cwd time interrupted args =
        (perform disk cwd r interrupted).result time r.shown := run_of_request hr
    rw [hfirst] at hzero
    obtain ⟨text, htext⟩ := exists_of_exitCode_result hzero
    obtain ⟨a, hparse, hhelp, hmakes⟩ := requestOf?_eq_some_iff.mp hr
    obtain ⟨hmakes', hsame, hview⟩ := perform_again hmakes (hrequest r hr) htext
    have hdisk : first.disk = (perform disk cwd r interrupted).disk := by
      show (run disk cwd time interrupted args).disk = _
      rw [hfirst, disk_result]
    rw [← hdisk] at hmakes' hsame hview
    have hr' : requestOf? first.disk cwd args = some r :=
      requestOf?_eq_some_iff.mpr ⟨a, hparse, hhelp, hmakes'⟩
    have hagain : again = (perform first.disk cwd r interrupted).result time' r.shown :=
      run_of_request hr' time'
    rw [hagain, result_of_outcome (hsame.symm ▸ htext), hsame]
    refine ⟨rfl, ?_, ?_, hview⟩
    · show text = (run disk cwd time interrupted args).stdout
      rw [hfirst, result_of_outcome htext]
    · rw [hfirst, result_of_outcome htext]

/-- The artifacts of all sources in the working directory are to stand in a directory below. -/
def nestedRequest : Request where
  output := ⟨"/", ["w", "gen"]⟩
  config := none
  sources := [⟨"/", ["w"]⟩]
  flags := [.force, .noValidate]

/-- The first run succeeds, no artifact has a slash in its name, and no directory is called like a
source. -/
theorem perform_nestedRequest :
    (perform carDisk ["w"] nestedRequest false).output.outcome.isOk = true ∧
      (prepared carDisk ["w"] nestedRequest false).outcome.map (fun made =>
        made.2.all fun a => !a.name.display.toList.contains '/') = .ok true ∧
      ∀ key ∈ (perform carDisk ["w"] nestedRequest false).disk.entries.map Prod.fst,
        (perform carDisk ["w"] nestedRequest false).disk.get? key = some .directory →
          Text.endsWith (key.getLast?.getD "") Source.sourceSuffix = false := by
  decide +kernel

theorem isRepeatable_nestedRequest : nestedRequest.IsRepeatable carDisk ["w"] false where
  force := rfl
  excludes := rfl
  real := rfl
  ends := by
    intro settings hsettings
    have hends : (settingsOf carDisk ["w"] nestedRequest).map (fun settings =>
        Text.endsWith settings.artifactSuffix.display Source.generatedSuffix &&
          Text.endsWith settings.markerArtifact.display Source.generatedSuffix) = .ok true := by
      decide +kernel
    rw [hsettings] at hends
    simpa using Except.ok.inj hends
  names := by
    intro settings artifacts hprepared
    have hnames := perform_nestedRequest.2.1
    rw [hprepared] at hnames
    intro a ha
    simpa using List.all_eq_true.mp (Except.ok.inj hnames) a ha
  config := by
    intro settings artifacts hprepared a ha p hp
    cases hp
  directories := by
    intro key hnone hdirectory
    refine perform_nestedRequest.2.2 key ?_ hdirectory
    apply Disk.mem_keys_of_get? (Disk.ne_nil_of_get?_eq_none hnone)
    rw [hdirectory]
    rfl

/-- The output directory is new and stands in the directory of the sources, so the second run finds
the artifacts of the first one there. -/
theorem run_again_nested :
    let args := ["--force", "--no-validate", "--output", "gen", "."]
    let first := run carDisk ["w"] "12:00" false args
    let again := run first.disk ["w"] "12:30" false args
    (requestOf? carDisk ["w"] args = some nestedRequest ∧
      nestedRequest.IsRepeatable carDisk ["w"] false ∧ first.exitCode = 0) ∧
    again.exitCode = 0 ∧ again.stdout = first.stdout ∧ again.disk.get? = first.disk.get? := by
  intro args
  have hrequest : requestOf? carDisk ["w"] args = some nestedRequest := by decide +kernel
  have hzero : (run carDisk ["w"] "12:00" false args).exitCode = 0 := by
    rw [run_of_request hrequest]
    cases houtcome : (perform carDisk ["w"] nestedRequest false).output.outcome with
    | ok text => rw [result_of_outcome houtcome]
    | error e =>
      have hok := perform_nestedRequest.1
      rw [houtcome] at hok
      cases hok
  have hall : ∀ r, requestOf? carDisk ["w"] args = some r →
      r.IsRepeatable carDisk ["w"] false := by
    intro r hr
    obtain rfl := Option.some.inj (hrequest.symm.trans hr)
    exact isRepeatable_nestedRequest
  obtain ⟨hexit, hstdout, -, hview⟩ :=
    run_again carDisk ["w"] "12:00" "12:30" false args hzero hall
  exact ⟨⟨hrequest, isRepeatable_nestedRequest, hzero⟩, hexit, hstdout, hview⟩

end Backfield.CommandLine
