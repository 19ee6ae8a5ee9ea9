import Backfield.Proofs.Scan.Classes
import Backfield.Proofs.Scan.Members
import Backfield.Proofs.Scan.Order

/-!
# How a scan can fail

A scan checks every property and every class that it makes, and decides beforehand which fields get
one.  Its conditions are as strict as the checks, so no check ever fails.  What is left is a field
that no name can be made for.

* `mem_reportsOf_iff` says which fragments count: those that repeat no earlier one.
* `decision_eq_error_iff` is one field, `outcome_propertiesFrom_eq_error_iff` the loop over the
  fields of a class, and `inTurn_eq_error_iff` the loop over the classes.
* `check_of_describe` says that what is made passes its checks.
* `scan_fails_iff` is the result.
-/

namespace Backfield.Scan

variable {known : KnownTypes} {marker : Value} {className : String} {accessibility : Accessibility}
variable {fragments : List Fragment} {e : Error}

/-! ## Fragments that count -/

/-- The element is in the list, and none before it is the same. -/
def StandsFirst {α : Type} (same : α → α → Bool) (xs : List α) (x : α) : Prop :=
  ∃ before after, xs = before ++ x :: after ∧ ∀ y ∈ before, same y x = false

theorem standsFirst_concat {α : Type} {same : α → α → Bool} {xs : List α} {x z : α} :
    StandsFirst same (xs ++ [z]) x ↔
      StandsFirst same xs x ∨ x = z ∧ ∀ y ∈ xs, same y z = false := by
  constructor
  · rintro ⟨before, after, heq, hbefore⟩
    rcases List.eq_nil_or_concat' after with rfl | ⟨after, last, rfl⟩
    · obtain ⟨rfl, hlast⟩ := List.append_inj' heq rfl
      obtain rfl := (List.cons.inj hlast).1
      exact Or.inr ⟨rfl, hbefore⟩
    · rw [← List.cons_append, ← List.append_assoc] at heq
      exact Or.inl ⟨before, after, (List.append_inj' heq rfl).1, hbefore⟩
  · rintro (⟨before, after, rfl, hbefore⟩ | ⟨rfl, hxs⟩)
    · exact ⟨before, after ++ [z], by rw [List.append_assoc, List.cons_append], hbefore⟩
    · exact ⟨xs, [], rfl, hxs⟩

/-- Where equal values make elements the same, those that stand first are left when repeats are
dropped. -/
theorem mem_eraseDupsBy_iff {α β : Type} [DecidableEq β] {same : α → α → Bool} {value : α → β}
    (hsame : ∀ x y, same x y = (value x == value y)) {xs : List α} {x : α} :
    x ∈ xs.eraseDupsBy same ↔ StandsFirst same xs x := by
  have hself : ∀ y, same y y = true := fun y => by rw [hsame, beq_self_eq_true]
  induction xs using List.reverseRecOn with
  | nil => simp [StandsFirst]
  | append_singleton xs z ih =>
    have hxs : x ∈ xs.eraseDupsBy same ↔ StandsFirst same xs x := ih
    rw [eraseDupsBy_concat, standsFirst_concat]
    split
    · -- An element that is left of the earlier ones is the same as the last one.
      rename_i hany
      obtain ⟨y, hy, hzy⟩ := List.any_eq_true.mp hany
      rw [hxs, or_iff_left]
      rintro ⟨-, hnew⟩
      have hyz := hnew y (mem_of_mem_eraseDupsBy hy)
      rw [hsame, beq_iff_eq] at hzy
      rw [hsame, hzy, beq_self_eq_true] at hyz
      cases hyz
    · rename_i hnone
      have hnew : ∀ y ∈ xs, same y z = false := by
        intro y hy
        obtain ⟨left, hleft, hyleft⟩ := exists_mem_eraseDupsBy hself hy
        by_contra hyz
        refine hnone (List.any_eq_true.mpr ⟨left, hleft, ?_⟩)
        rw [Bool.not_eq_false, hsame, beq_iff_eq] at hyz
        rw [hsame, ← hyz, ← hsame]
        exact hyleft
      rw [List.mem_append, List.mem_singleton, hxs, and_iff_left hnew]

/-- The fragment counts: it repeats no report that comes before it. -/
def IsReported (fragments : List Fragment) (f : Fragment) : Prop :=
  StandsFirst Fragment.sameReport fragments f

theorem mem_reportsOf_iff {name : String} {f : Fragment} :
    f ∈ reportsOf name fragments ↔ IsReported fragments f ∧ f.fullName = name := by
  have hname : ∀ f g : Fragment, f.sameReport g = true →
      (f.fullName == name) = (g.fullName == name) := by
    intro f g hsame
    rw [(Fragment.sameDeclaration_of_sameReport hsame).fullName]
  rw [reportsOf, eraseDupsBy_filter hname, List.mem_filter, mem_eraseDupsBy_iff sameReport_eq,
    beq_iff_eq, IsReported]

theorem IsReported.mem {f : Fragment} (h : IsReported fragments f) : f ∈ fragments := by
  obtain ⟨before, after, rfl, -⟩ := h
  exact List.mem_append_right _ List.mem_cons_self

theorem mem_fieldsOf {entry : Fragment × Field} :
    entry ∈ fieldsOf fragments ↔ entry.1 ∈ fragments ∧ entry.2 ∈ entry.1.fields := by
  obtain ⟨f, field⟩ := entry
  rw [fieldsOf, List.mem_flatMap]
  constructor
  · rintro ⟨g, hg, hmem⟩
    obtain ⟨other, hother, heq⟩ := List.mem_map.mp hmem
    cases heq
    exact ⟨hg, hother⟩
  · rintro ⟨hf, hfield⟩
    exact ⟨f, hf, List.mem_map_of_mem hfield⟩

/-! ## One field -/

/-- The field carries the marker once and has a type, but no name. -/
def IsNameless (known : KnownTypes) (marker : Value) (entry : Fragment × Field) : Prop :=
  entry.2.name = "" ∧ marksOfValue known marker entry.1 entry.2 = 1 ∧ hasType entry.2 = true

theorem decision_eq_error_iff {entry : Fragment × Field} :
    decision known marker accessibility entry = .error e ↔
      e = .emptyFieldName ∧ IsNameless known marker entry := by
  unfold decision
  split_ifs with hmarked hname
  · rw [Bool.and_eq_true, beq_iff_eq] at hmarked
    simp [IsNameless, hname, hmarked, eq_comm]
  · simp [IsNameless, hname]
  · rw [Bool.and_eq_true, beq_iff_eq] at hmarked
    have hnamed : ¬IsNameless known marker entry := fun h => hmarked h.2
    simp [hnamed]

/-! ## All fields of a class -/

/-- The loop over the fields fails at a field without a name.  Such a field is never passed over as
seen, since only fields with names are. -/
theorem outcome_propertiesFrom_eq_error_iff {seen : List String}
    {entries : List (Fragment × Field)} (hseen : "" ∉ seen) :
    (propertiesFrom known marker className accessibility seen entries).outcome = .error e ↔
      e = .emptyFieldName ∧ ∃ entry ∈ entries, IsNameless known marker entry := by
  induction entries generalizing seen with
  | nil => simp [propertiesFrom]
  | cons entry rest ih =>
    rw [outcome_propertiesFrom_cons, List.exists_mem_cons_iff]
    split
    · rename_i hmem
      have hnamed : ¬IsNameless known marker entry := fun h => hseen (h.1 ▸ hmem)
      rw [ih hseen, or_iff_right hnamed]
    · cases hdecision : decision known marker accessibility entry with
      | error e' =>
        obtain ⟨rfl, hnameless⟩ := decision_eq_error_iff.mp hdecision
        simp [Except.bind, hnameless, eq_comm]
      | ok found =>
        have hnamed : ¬IsNameless known marker entry := by
          intro hnameless
          rw [decision_eq_error_iff.mpr ⟨rfl, hnameless⟩] at hdecision
          cases hdecision
        rw [or_iff_right hnamed]
        cases found with
        | none => exact ih hseen
        | some p =>
          refine map_eq_error_iff.trans (ih ?_)
          rw [List.mem_cons, not_or]
          exact ⟨Ne.symm (decision_eq_some hdecision).1, hseen⟩

theorem describe_eq_error_iff {reports : List Fragment} :
    describe known marker reports = .error e ↔
      e = .emptyFieldName ∧ ∃ entry ∈ fieldsOf reports, IsNameless known marker entry := by
  cases reports with
  | nil => simp [describe, fieldsOf]
  | cons first more =>
    rw [describe_cons, map_eq_error_iff,
      outcome_propertiesFrom_eq_error_iff List.not_mem_nil]

/-! ## All classes -/

/-- If there is one way to fail for each name, it is the one for all of them. -/
theorem inTurn_eq_error_iff {α : Type} {find : String → Except Error (List α)} {failure : Error}
    {fails : String → Prop} (hfind : ∀ name e, find name = .error e ↔ e = failure ∧ fails name)
    {names : List String} :
    inTurn find names = .error e ↔ e = failure ∧ ∃ name ∈ names, fails name := by
  induction names with
  | nil => simp [inTurn_nil]
  | cons name rest ih =>
    rw [inTurn_cons, bind_eq_error_iff, hfind, List.exists_mem_cons_iff]
    simp only [map_eq_error_iff, ih]
    by_cases hfails : fails name
    · have herror : find name = .error failure := (hfind name failure).mpr ⟨rfl, hfails⟩
      simp [herror, hfails]
    · have hok : ∃ found, find name = .ok found := by
        cases hresult : find name with
        | error e => exact absurd ((hfind name e).mp hresult).2 hfails
        | ok found => exact ⟨found, rfl⟩
      obtain ⟨found, hfound⟩ := hok
      simp [hfound, hfails]

/-! ## Checks -/

/-- A property that is made for a field passes its check, and so does the class. -/
theorem check_of_describe {name : String} {c : ReactiveClass}
    (h : describe known marker (reportsOf name fragments) = .ok (some c)) :
    c.check = .ok c ∧ ∀ p ∈ c.properties, p.check = .ok p := by
  obtain ⟨hsome, -, hproperties⟩ := properties_of_describe h
  constructor
  · rw [ReactiveClass.check, if_neg (by simpa using hsome)]
  · intro p hp
    obtain ⟨f, -, -, field, -, -, hrenamed, rfl⟩ := hproperties p hp
    have hname : field.name ≠ "" := by
      intro hname
      rw [isRenamed, hname] at hrenamed
      exact absurd hrenamed (by decide)
    exact check_propertyOf c.accessibility hname hrenamed

/-! ## Scans -/

theorem marksOfValue_text (known : KnownTypes) (marker : String) (f : Fragment) (field : Field) :
    marksOfValue known (.text marker) f field = marksOf known marker f field := by
  rw [marksOfValue, marksOf]
  refine List.countP_congr fun written _ => ?_
  cases Binding.bindAttribute? known f written <;> simp

/-- The classes of a scan fail at a field without a name in a fragment that counts. -/
theorem inTurn_describeIn_eq_error_iff {marker : String} :
    inTurn (describeIn known (.text marker) fragments) (classNames fragments) = .error e ↔
      e = .emptyFieldName ∧ ∃ f field, IsReported fragments f ∧ field ∈ f.fields ∧
        field.name = "" ∧ marksOf known marker f field = 1 ∧ hasType field = true := by
  have hclass : ∀ (name : String) (e : Error),
      describeIn known (.text marker) fragments name = .error e ↔
        e = .emptyFieldName ∧ ∃ entry ∈ fieldsOf (reportsOf name fragments),
          IsNameless known (.text marker) entry :=
    fun name e => map_eq_error_iff.trans describe_eq_error_iff
  rw [inTurn_eq_error_iff hclass]
  simp only [IsNameless, marksOfValue_text, mem_fieldsOf, mem_reportsOf_iff]
  refine and_congr_right fun _ => ?_
  constructor
  · rintro ⟨name, -, ⟨f, field⟩, ⟨⟨hreported, -⟩, hfield⟩, hnameless⟩
    exact ⟨f, field, hreported, hfield, hnameless⟩
  · rintro ⟨f, field, hreported, hfield, hnameless⟩
    refine ⟨f.fullName, ?_, (f, field), ⟨⟨hreported, rfl⟩, hfield⟩, hnameless⟩
    rw [classNames, List.mem_eraseDups]
    exact List.mem_map_of_mem hreported.mem

/-- A scan fails exactly if the marker is known and a field without a name carries it once, has a
type, and stands in a fragment that repeats no earlier one.  Then the missing name is what is wrong.
Otherwise what is found passes the checks of properties and of classes. -/
theorem scan_fails_iff (settings : Settings) (known : KnownTypes) (fragments : List Fragment)
    {space name : String} (hspace : settings.markerNamespace = .text space)
    (hname : settings.markerName = .text name) :
    (∀ e, (scan settings known fragments).outcome = .error e ↔
        e = .emptyFieldName ∧ qualifiedName space name ∈ known.names ∧
          ∃ f field, IsReported fragments f ∧ field ∈ f.fields ∧ field.name = "" ∧
            marksOf known (qualifiedName space name) f field = 1 ∧ hasType field = true) ∧
      Error.emptyFieldName.message = "Field name must not be empty" ∧
      ∀ classes, (scan settings known fragments).outcome = .ok classes →
        ∀ c ∈ classes, c.check = .ok c ∧ ∀ p ∈ c.properties, p.check = .ok p := by
  refine ⟨fun e => ?_, rfl, fun classes hscan c hc => ?_⟩
  · rw [outcome_scan_eq, markerFullName_eq hspace hname, resolve?_text, Except.bind]
    by_cases hknown : qualifiedName space name ∈ known.names
    · rw [if_pos hknown, and_iff_right hknown]
      exact inTurn_describeIn_eq_error_iff
    · simp [hknown]
  · obtain ⟨marker, name, hdescribe⟩ := exists_describe_of_mem hscan hc
    exact check_of_describe hdescribe

/-- A nameless field in a report that is dropped does no harm, and one in a later fragment of the
class does. -/
theorem scan_fails_iff_repeated :
    let first : Fragment := {
      name := "Car"
      fields := [⟨"_speed", some "int", ["R"]⟩, ⟨"", some "int", ["R"]⟩]
      aliases := [("R", "Other")] }
    let repeated : Fragment := { first with
      aliases := [("R", "ReactiveObject.Generators.ReactivePropertyAttribute")] }
    let last : Fragment := { repeated with fields := [⟨"", some "int", ["R"]⟩] }
    let known := KnownTypes.ofNames ["ReactiveObject.Generators.ReactivePropertyAttribute"]
    (∀ e, (scan {} known [first, repeated]).outcome ≠ .error e) ∧
      (scan {} known [first, repeated, last]).outcome = .error .emptyFieldName := by
  intro first repeated last known
  have hiff := fun fragments => (scan_fails_iff {} known fragments rfl rfl).1
  constructor
  · intro e hfails
    obtain ⟨-, -, f, field, hreported, hfield, -, hmarks, -⟩ := (hiff _ e).mp hfails
    have hkept : [first, repeated].eraseDupsBy Fragment.sameReport = [first] := by decide
    have hfirst : f = first := by
      rw [← List.mem_singleton, ← hkept]
      exact (mem_eraseDupsBy_iff sameReport_eq).mpr hreported
    have hnone : ∀ field ∈ first.fields,
        marksOf known (qualifiedName "ReactiveObject.Generators" "ReactivePropertyAttribute") first
          field = 0 := by
      decide +kernel
    rw [hfirst] at hfield hmarks
    rw [hnone field hfield] at hmarks
    cases hmarks
  · refine (hiff _ _).mpr ⟨rfl, by decide, last, ⟨"", some "int", ["R"]⟩, ?_, ?_⟩
    · exact ⟨[first, repeated], [], rfl, by decide⟩
    · decide +kernel

end Backfield.Scan
