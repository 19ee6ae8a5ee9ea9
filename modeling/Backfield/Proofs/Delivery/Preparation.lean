import Backfield.Delivery

/-!
# What is checked before a delivery

A batch is checked in loops that stop at the first artifact that fails.

* `IsFirst` says which element of a list a loop stops at, and `forM_eq_error_iff` that it does.
* `checkArtifact_eq_error_iff` and `checkTarget_eq_error_iff` say what fails a check.
* `mapM_targetOf` gives the paths of a batch whose names are text.
* `Prepares` lists the ways in which the checks can end, and `prepares_prepare` that they end
  so.
-/

namespace Backfield.Delivery

/-! ## The first that fails -/

section First

variable {α : Type} {holds : α → Prop} {a x : α} {xs : List α}

/-- The element is the first of a list for which something holds. -/
def IsFirst (holds : α → Prop) (xs : List α) (a : α) : Prop :=
  holds a ∧ ∃ before after, xs = before ++ a :: after ∧ ∀ b ∈ before, ¬holds b

theorem IsFirst.mem (hfirst : IsFirst holds xs a) : a ∈ xs := by
  obtain ⟨-, before, after, rfl, -⟩ := hfirst
  exact List.mem_append_right before List.mem_cons_self

theorem not_isFirst_nil : ¬IsFirst holds [] a := by
  rintro ⟨-, before, after, heq, -⟩
  cases before <;> cases heq

theorem isFirst_cons_of_holds (hx : holds x) : IsFirst holds (x :: xs) a ↔ a = x := by
  constructor
  · rintro ⟨-, before, after, heq, hbefore⟩
    cases before with
    | nil =>
      cases heq
      rfl
    | cons b before =>
      cases heq
      exact absurd hx (hbefore x List.mem_cons_self)
  · rintro rfl
    exact ⟨hx, [], xs, rfl, by simp⟩

theorem isFirst_cons_of_not (hx : ¬holds x) :
    IsFirst holds (x :: xs) a ↔ IsFirst holds xs a := by
  constructor
  · rintro ⟨ha, before, after, heq, hbefore⟩
    cases before with
    | nil =>
      cases heq
      exact absurd ha hx
    | cons b before =>
      cases heq
      exact ⟨ha, before, after, rfl, fun b hb => hbefore b (List.mem_cons_of_mem _ hb)⟩
  · rintro ⟨ha, before, after, heq, hbefore⟩
    refine ⟨ha, x :: before, after, by rw [heq, List.cons_append], fun b hb => ?_⟩
    rcases List.mem_cons.mp hb with rfl | hb
    · exact hx
    · exact hbefore b hb

/-- There is only one first element. -/
theorem IsFirst.unique {b : α} (ha : IsFirst holds xs a) (hb : IsFirst holds xs b) : a = b := by
  induction xs with
  | nil => exact absurd ha not_isFirst_nil
  | cons x xs ih =>
    by_cases hx : holds x
    · rw [(isFirst_cons_of_holds hx).mp ha, (isFirst_cons_of_holds hx).mp hb]
    · exact ih ((isFirst_cons_of_not hx).mp ha) ((isFirst_cons_of_not hx).mp hb)

/-- The element does not pass the check. -/
def Fails (check : α → Except Error Unit) (a : α) : Prop := check a ≠ .ok ()

/-- A loop stops at the first element that fails, with its error. -/
theorem forM_eq_error_iff {f : α → Except Error Unit} {e : Error} :
    xs.forM f = .error e ↔ ∃ a, IsFirst (Fails f) xs a ∧ f a = .error e := by
  induction xs with
  | nil =>
    constructor
    · intro h
      cases h
    · rintro ⟨a, hfirst, -⟩
      exact absurd hfirst not_isFirst_nil
  | cons x xs ih =>
    rw [show (x :: xs).forM f = f x >>= fun _ => xs.forM f from rfl]
    cases hx : f x with
    | error e' =>
      have hfails : Fails f x := by simp [Fails, hx]
      constructor
      · intro h
        cases h
        exact ⟨x, (isFirst_cons_of_holds hfails).mpr rfl, hx⟩
      · rintro ⟨a, hfirst, ha⟩
        obtain rfl := (isFirst_cons_of_holds hfails).mp hfirst
        rw [← ha, hx]
        rfl
    | ok u =>
      have hpasses : ¬Fails f x := by simp [Fails, hx]
      refine ih.trans (exists_congr fun a => and_congr_left' ?_)
      exact (isFirst_cons_of_not hpasses).symm

theorem forM_eq_ok_iff {ε : Type} {f : α → Except ε Unit} :
    xs.forM f = .ok () ↔ ∀ a ∈ xs, f a = .ok () := by
  induction xs with
  | nil => simp [List.forM, pure, Except.pure]
  | cons x xs ih =>
    rw [show (x :: xs).forM f = f x >>= fun _ => xs.forM f from rfl]
    cases hx : f x with
    | error e => simp [hx, bind, Except.bind]
    | ok u =>
      rw [List.forall_mem_cons, hx, ← ih]
      simp [bind, Except.bind]

end First

/-! ## Checks of one artifact -/

-- Nothing below depends on the grammar that the texts are checked by.
variable {problemIn? : String → Option Nat}

/-- The artifact is unfit for writing, and for this. -/
inductive IsUnfit (problemIn? : String → Option Nat) (a : Artifact) : ArtifactFault → Prop
  | syntaxError {line : Nat} (hproblem : problemIn? a.text = some line) :
    IsUnfit problemIn? a (.syntaxError line)
  | noType (hproblem : problemIn? a.text = none)
    (hclass : Text.contains a.text "class " = false) : IsUnfit problemIn? a .noType

theorem faultOf?_eq_some_iff {a : Artifact} {fault : ArtifactFault} :
    faultOf? a.text problemIn? = some fault ↔ IsUnfit problemIn? a fault := by
  constructor
  · intro h
    rw [faultOf?] at h
    split at h
    · cases h
      exact .syntaxError ‹_›
    · split at h
      · cases h
      · cases h
        exact .noType ‹_› (Bool.eq_false_iff.mpr ‹_›)
  · intro h
    cases h with
    | syntaxError hproblem => rw [faultOf?, hproblem]
    | noType hproblem hclass => simp [faultOf?, hproblem, hclass]

theorem checkArtifact_eq_error_iff {a : Artifact} {e : Error} :
    checkArtifact a problemIn? = .error e ↔
      ∃ fault, IsUnfit problemIn? a fault ∧ e = .invalidArtifact a.name.display fault := by
  rw [checkArtifact]
  cases hfault : faultOf? a.text problemIn? with
  | none => simp [← faultOf?_eq_some_iff, hfault]
  | some fault => simp [← faultOf?_eq_some_iff, hfault, eq_comm]

theorem fails_checkArtifact :
    Fails (checkArtifact · problemIn?) = fun a => ∃ fault, IsUnfit problemIn? a fault := by
  funext a
  rw [Fails]
  cases hcheck : checkArtifact a problemIn? with
  | error e =>
    obtain ⟨fault, hunfit, -⟩ := checkArtifact_eq_error_iff.mp hcheck
    simpa using ⟨fault, hunfit⟩
  | ok u =>
    have hfit : ¬∃ fault, IsUnfit problemIn? a fault := by
      rintro ⟨fault, hunfit⟩
      rw [checkArtifact_eq_error_iff.mpr ⟨fault, hunfit, rfl⟩] at hcheck
      cases hcheck
    simpa using hfit

/-- No artifact is unfit for two reasons. -/
theorem IsUnfit.unique {a : Artifact} {fault fault' : ArtifactFault}
    (h : IsUnfit problemIn? a fault) (h' : IsUnfit problemIn? a fault') : fault = fault' := by
  rw [← faultOf?_eq_some_iff] at h h'
  exact Option.some.inj (h.symm.trans h')

theorem checkTarget_eq_error_iff {disk : Disk} {cwd : Key} {target : Path} {e : Error} :
    checkTarget disk cwd target = .error e ↔
      disk.pathExists cwd target = true ∧ e = .targetExists target.text := by
  rw [checkTarget]
  split
  · rename_i hexists
    rw [Except.error.injEq, eq_comm]
    exact (and_iff_right hexists).symm
  · rename_i hfree
    exact iff_of_false (by simp) fun h => hfree h.1

/-! ## Targets -/

/-- The name of the artifact is text. -/
def IsNamed (a : Artifact) : Prop := ∃ name, a.name = .text name

/-- Where a delivery into a directory writes an artifact. -/
def pathOf (directory : Path) (a : Artifact) : Path :=
  directory.join (Path.ofText a.name.display)

theorem fails_checkTarget (disk : Disk) (cwd : Key) (directory : Path) :
    (Fails fun a => checkTarget disk cwd (pathOf directory a)) =
      fun a => disk.pathExists cwd (pathOf directory a) = true := by
  funext a
  rw [Fails, checkTarget]
  split <;> simp_all

theorem targetOf_eq_ok {directory : Path} {a : Artifact} (hname : IsNamed a) :
    targetOf directory a = .ok (pathOf directory a) := by
  obtain ⟨name, hname⟩ := hname
  rw [targetOf, pathOf, hname]
  rfl

theorem targetOf_eq_error {directory : Path} {a : Artifact} (hname : ¬IsNamed a) :
    targetOf directory a = .error (.setting .notFileName) := by
  rw [targetOf]
  split
  · exact absurd ⟨_, ‹_›⟩ hname
  · rfl

/-- A batch has its targets if all its names are text, and else it is refused. -/
theorem mapM_targetOf (directory : Path) (artifacts : List Artifact) :
    ((∀ a ∈ artifacts, IsNamed a) ∧
        artifacts.mapM (targetOf directory) = .ok (artifacts.map (pathOf directory))) ∨
      ((¬∀ a ∈ artifacts, IsNamed a) ∧
        artifacts.mapM (targetOf directory) = .error (.setting .notFileName)) := by
  induction artifacts with
  | nil => exact Or.inl ⟨by simp, rfl⟩
  | cons a rest ih =>
    rw [List.forall_mem_cons, List.mapM_cons]
    by_cases hname : IsNamed a
    · rw [targetOf_eq_ok hname]
      rcases ih with ⟨hrest, htargets⟩ | ⟨hrest, htargets⟩
      · exact Or.inl ⟨⟨hname, hrest⟩, by rw [htargets]; rfl⟩
      · exact Or.inr ⟨fun h => hrest h.2, by rw [htargets]; rfl⟩
    · exact Or.inr ⟨fun h => hname h.1, by rw [targetOf_eq_error hname]; rfl⟩

/-! ## All checks of a batch -/

/-- No artifact is unfit, where that is asked for. -/
def AreFit (problemIn? : String → Option Nat) (settings : OutputSettings)
    (artifacts : List Artifact) : Prop :=
  settings.validate.isTrue = true → ∀ a ∈ artifacts, ¬∃ fault, IsUnfit problemIn? a fault

/-- How the checks of a batch end. -/
inductive Prepares (problemIn? : String → Option Nat) (settings : OutputSettings) (disk : Disk)
    (cwd : Key) (directory : Path) (artifacts : List Artifact) :
    Except Error (List Path) → Prop
  | unfit {a : Artifact} {fault : ArtifactFault} (hvalidate : settings.validate.isTrue = true)
    (hfirst : IsFirst (fun a => ∃ fault, IsUnfit problemIn? a fault) artifacts a)
    (hunfit : IsUnfit problemIn? a fault) :
    Prepares problemIn? settings disk cwd directory artifacts
      (.error (.invalidArtifact a.name.display fault))
  | unnamed (hfit : AreFit problemIn? settings artifacts) (hnames : ¬∀ a ∈ artifacts, IsNamed a) :
    Prepares problemIn? settings disk cwd directory artifacts
      (.error (.setting .notFileName))
  | taken {a : Artifact} (hfit : AreFit problemIn? settings artifacts)
    (hnames : ∀ a ∈ artifacts, IsNamed a) (hmode : settings.mode = .mode .refuse)
    (hfirst : IsFirst (fun a => disk.pathExists cwd (pathOf directory a) = true) artifacts a) :
    Prepares problemIn? settings disk cwd directory artifacts
      (.error (.targetExists (pathOf directory a).text))
  | passed (hfit : AreFit problemIn? settings artifacts) (hnames : ∀ a ∈ artifacts, IsNamed a)
    (hfree : settings.mode = .mode .refuse →
      ∀ a ∈ artifacts, ¬disk.pathExists cwd (pathOf directory a) = true) :
    Prepares problemIn? settings disk cwd directory artifacts
      (.ok (artifacts.map (pathOf directory)))

theorem prepare_eq (settings : OutputSettings) (disk : Disk) (cwd : Key) (directory : Path)
    (artifacts : List Artifact) :
    prepare settings disk cwd directory artifacts problemIn? =
      (if settings.validate.isTrue = true then artifacts.forM (checkArtifact · problemIn?)
        else .ok ()).bind fun _ =>
        (artifacts.mapM (targetOf directory)).bind fun targets =>
          (if settings.mode = .mode .refuse then targets.forM (checkTarget disk cwd)
            else .ok ()).map fun _ => targets := by
  rw [prepare]
  split <;> split <;> rfl

/-- The checks go by the texts of a batch, then by its names, then by what is on the disk. -/
theorem prepares_prepare (problemIn? : String → Option Nat) (settings : OutputSettings)
    (disk : Disk) (cwd : Key) (directory : Path) (artifacts : List Artifact) :
    Prepares problemIn? settings disk cwd directory artifacts
      (prepare settings disk cwd directory artifacts problemIn?) := by
  rw [prepare_eq]
  cases htexts : if settings.validate.isTrue = true then
      artifacts.forM (checkArtifact · problemIn?) else .ok () with
  | error e =>
    split at htexts
    · obtain ⟨a, hfirst, ha⟩ := forM_eq_error_iff.mp htexts
      obtain ⟨fault, hunfit, rfl⟩ := checkArtifact_eq_error_iff.mp ha
      rw [fails_checkArtifact] at hfirst
      exact .unfit ‹_› hfirst hunfit
    · cases htexts
  | ok u =>
    have hfit : AreFit problemIn? settings artifacts := by
      intro hvalidate a ha hunfit
      rw [if_pos hvalidate] at htexts
      rw [← congrFun fails_checkArtifact a] at hunfit
      exact hunfit (forM_eq_ok_iff.mp htexts a ha)
    rcases mapM_targetOf directory artifacts with ⟨hnames, htargets⟩ | ⟨hnames, htargets⟩
    · rw [htargets]
      dsimp only [Except.bind]
      have hmap : (artifacts.map (pathOf directory)).forM (checkTarget disk cwd) =
          artifacts.forM fun a => checkTarget disk cwd (pathOf directory a) := List.forM_map
      rw [hmap]
      cases hplaces : if settings.mode = .mode .refuse then
          artifacts.forM fun a => checkTarget disk cwd (pathOf directory a) else .ok () with
      | error e =>
        split at hplaces
        · obtain ⟨a, hfirst, ha⟩ := forM_eq_error_iff.mp hplaces
          obtain ⟨-, rfl⟩ := checkTarget_eq_error_iff.mp ha
          rw [fails_checkTarget] at hfirst
          exact .taken hfit hnames ‹_› hfirst
        · cases hplaces
      | ok u =>
        refine .passed hfit hnames fun hmode a ha hexists => ?_
        rw [if_pos hmode] at hplaces
        rw [← congrFun (fails_checkTarget disk cwd directory) a] at hexists
        exact hexists (forM_eq_ok_iff.mp hplaces a ha)
    · rw [htargets]
      exact .unnamed hfit hnames

end Backfield.Delivery
