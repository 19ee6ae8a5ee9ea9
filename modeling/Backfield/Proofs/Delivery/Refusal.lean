import Backfield.Proofs.Delivery.WritePhase

/-!
# What a delivery refuses

A batch is refused for the first of its artifacts that is unfit, whatever is on the disk, and
then for the first whose target exists.  Both are known before anything is written.

* `prepare_eq_invalidArtifact_iff` and `prepare_eq_targetExists_iff` say when that is.
* `outcome_deliver_eq_refusal_iff` says that writing adds no refusals, and
  `deliver_refuses_before_writing` puts all together.
-/

namespace Backfield.Delivery

variable {settings : OutputSettings} {disk : Disk} {cwd : Key} {directory : Path}
  {artifacts : List Artifact} {problemIn? : String → Option Nat}

/-! ## The order of the checks -/

theorem prepare_eq_invalidArtifact_iff {name : String} {fault : ArtifactFault} :
    prepare settings disk cwd directory artifacts problemIn? =
        .error (.invalidArtifact name fault) ↔
      settings.validate.isTrue = true ∧
        ∃ a, IsFirst (fun a => ∃ fault, IsUnfit problemIn? a fault) artifacts a ∧
          IsUnfit problemIn? a fault ∧ name = a.name.display := by
  have hprepares := prepares_prepare problemIn? settings disk cwd directory artifacts
  constructor
  · intro herror
    rw [herror] at hprepares
    cases hprepares with
    | unfit hvalidate hfirst hunfit => exact ⟨hvalidate, _, hfirst, hunfit, rfl⟩
  · rintro ⟨hvalidate, a, hfirst, hunfit, rfl⟩
    have hnotFit : ¬AreFit problemIn? settings artifacts := fun hfit =>
      hfit hvalidate a hfirst.mem hfirst.1
    generalize prepare settings disk cwd directory artifacts problemIn? = result at hprepares ⊢
    cases hprepares with
    | unfit _ hfirst' hunfit' =>
      obtain rfl := hfirst.unique hfirst'
      rw [hunfit.unique hunfit']
    | unnamed hfit _ => exact absurd hfit hnotFit
    | taken hfit _ _ _ => exact absurd hfit hnotFit
    | passed hfit _ _ => exact absurd hfit hnotFit

theorem prepare_eq_targetExists_iff {path : String} :
    prepare settings disk cwd directory artifacts problemIn? = .error (.targetExists path) ↔
      AreFit problemIn? settings artifacts ∧ (∀ a ∈ artifacts, IsNamed a) ∧
        settings.mode = .mode .refuse ∧
          ∃ a, IsFirst (fun a => disk.pathExists cwd (pathOf directory a) = true) artifacts a ∧
            path = (pathOf directory a).text := by
  have hprepares := prepares_prepare problemIn? settings disk cwd directory artifacts
  constructor
  · intro herror
    rw [herror] at hprepares
    cases hprepares with
    | taken hfit hnames hmode hfirst => exact ⟨hfit, hnames, hmode, _, hfirst, rfl⟩
  · rintro ⟨hfit, hnames, hmode, a, hfirst, rfl⟩
    generalize prepare settings disk cwd directory artifacts problemIn? = result at hprepares ⊢
    cases hprepares with
    | unfit hvalidate hfirst' _ => exact absurd hfirst'.1 (hfit hvalidate _ hfirst'.mem)
    | unnamed _ hnames' => exact absurd hnames hnames'
    | taken _ _ _ hfirst' => rw [hfirst.unique hfirst']
    | passed _ _ hfree => exact absurd hfirst.1 (hfree hmode a hfirst.mem)

/-! ## Refusals -/

/-- The error refuses a batch as a whole. -/
inductive IsRefusal : Error → Prop
  | invalidArtifact (name : String) (fault : ArtifactFault) :
    IsRefusal (.invalidArtifact name fault)
  | targetExists (path : String) : IsRefusal (.targetExists path)

/-- Once files are written, only a file can fail. -/
theorem exists_file_of_writeAll_eq_error {atomic : Bool} {e : Error}
    (files : List (Path × String))
    (herror : (writeAll atomic cwd disk files).written.outcome = .error e) :
    ∃ path fault, e = .file path fault := by
  induction files generalizing disk with
  | nil => cases herror
  | cons file rest ih =>
    obtain ⟨p, text⟩ := file
    cases hresult : (writeFile atomic cwd disk p text).result with
    | error stop =>
      obtain ⟨q, fault⟩ := stop
      rw [writeAll_of_error rest hresult] at herror
      cases herror
      exact ⟨_, _, rfl⟩
    | ok u =>
      rw [(writeAll_of_ok rest hresult).2] at herror
      cases hrest : (writeAll atomic cwd (writeFile atomic cwd disk p text).disk
          rest).written.outcome with
      | error e' =>
        rw [hrest] at herror
        cases herror
        exact ih hrest
      | ok paths =>
        rw [hrest] at herror
        cases herror

theorem deliver_of_prepare_eq_error {e : Error}
    (herror : prepare settings disk cwd directory artifacts problemIn? = .error e) :
    deliver settings disk cwd directory artifacts problemIn? = ⟨disk, Traced.fail e⟩ := by
  rw [deliver, herror]

/-- The checks refuse a batch and writing does not. -/
theorem outcome_deliver_eq_refusal_iff {e : Error} (hrefusal : IsRefusal e) :
    (deliver settings disk cwd directory artifacts problemIn?).written.outcome = .error e ↔
      prepare settings disk cwd directory artifacts problemIn? = .error e := by
  cases hprepared : prepare settings disk cwd directory artifacts problemIn? with
  | error e' =>
    rw [deliver_of_prepare_eq_error hprepared, Traced.outcome_fail]
  | ok targets =>
    rw [deliver_of_prepare_eq_ok hprepared]
    refine iff_of_false (fun herror => ?_) (by simp)
    obtain ⟨path, fault, rfl⟩ := exists_file_of_writeAll_eq_error _ herror
    cases hrefusal

/-- A refused batch leaves the disk as it was.  It is refused for its first unfit artifact,
where that is asked for, and else for the first whose target exists, unless it may be
overwritten.  This is so whatever grammar the texts are checked by. -/
theorem deliver_refuses_before_writing (problemIn? : String → Option Nat)
    (settings : OutputSettings) (disk : Disk) (cwd : Key) (directory : Path)
    (artifacts : List Artifact) :
    (∀ e, IsRefusal e →
        (deliver settings disk cwd directory artifacts problemIn?).written.outcome = .error e →
        (deliver settings disk cwd directory artifacts problemIn?).disk = disk) ∧
      (∀ name fault,
        (deliver settings disk cwd directory artifacts problemIn?).written.outcome =
            .error (.invalidArtifact name fault) ↔
          settings.validate.isTrue = true ∧
            ∃ a, IsFirst (fun a => ∃ fault, IsUnfit problemIn? a fault) artifacts a ∧
              IsUnfit problemIn? a fault ∧ name = a.name.display) ∧
      (∀ path,
        (deliver settings disk cwd directory artifacts problemIn?).written.outcome =
            .error (.targetExists path) ↔
          AreFit problemIn? settings artifacts ∧ (∀ a ∈ artifacts, IsNamed a) ∧
            settings.mode = .mode .refuse ∧
              ∃ a, IsFirst (fun a => disk.pathExists cwd (pathOf directory a) = true)
                  artifacts a ∧
                path = (pathOf directory a).text) ∧
      ∀ name fault,
        (Error.invalidArtifact name fault).message = name ++ ": " ++ fault.message := by
  refine ⟨fun e hrefusal herror => ?_, fun name fault => ?_, fun path => ?_, fun _ _ => rfl⟩
  · rw [outcome_deliver_eq_refusal_iff hrefusal] at herror
    rw [deliver_of_prepare_eq_error herror]
  · rw [outcome_deliver_eq_refusal_iff (.invalidArtifact name fault),
      prepare_eq_invalidArtifact_iff]
  · rw [outcome_deliver_eq_refusal_iff (.targetExists path), prepare_eq_targetExists_iff]

/-- The target of the first artifact exists, but it is the second that is refused. -/
theorem deliver_refuses_before_writing_second :
    let disk : Disk := ⟨[(["w"], .directory), (["w", "a.cs"], .file [65])]⟩
    let artifacts : List Artifact := [⟨.text "a.cs", "class A { }"⟩, ⟨.text "b.cs", ";"⟩]
    let delivery := deliver {} disk ["w"] (Path.ofText ".") artifacts
    delivery.written.outcome = .error (.invalidArtifact "b.cs" .noType) ∧
      delivery.disk = disk := by
  intro disk artifacts delivery
  have houtcome : delivery.written.outcome = .error (.invalidArtifact "b.cs" .noType) := by
    decide +kernel
  have hlaws := deliver_refuses_before_writing Source.firstProblem? {} disk ["w"]
    (Path.ofText ".") artifacts
  exact ⟨houtcome, hlaws.1 _ (.invalidArtifact "b.cs" .noType) houtcome⟩

end Backfield.Delivery
