import Backfield.Proofs.Scan.Groups
import Backfield.Proofs.Scan.Selection

/-!
# The classes that a scan describes

`describedClasses` says which classes a list of fragments describes, with no loop that carries a
state: for each class the distinct reports, of these the selected fields, and of the fields of
one name the first.  `scan_eq_describedClasses` is the result: without interruption a scan
returns these classes if the marker is known, and none if it is not.
-/

namespace Backfield.Scan

variable {known : KnownTypes} {marker : String}

/-! ## The description of a class -/

/-- The fields of the reports that get a property, each beside its fragment.  Of the selected
fields of one name the first counts. -/
def selectedFields (known : KnownTypes) (marker : String) (reports : List Fragment) :
    List (Fragment × Field) :=
  ((reports.flatMap fun f => f.fields.map fun field => (f, field)).filter
    (isSelected known marker)).eraseDupsBy sameName

/-- A field that is selected leaves a property of its name. -/
theorem exists_selectedFields {reports : List Fragment} {f : Fragment} {field : Field}
    (hf : f ∈ reports) (hfield : field ∈ f.fields)
    (hselected : isSelected known marker (f, field) = true) :
    ∃ entry ∈ selectedFields known marker reports, entry.2.name = field.name := by
  have hmem : (f, field) ∈
      (reports.flatMap fun f => f.fields.map fun field => (f, field)).filter
        (isSelected known marker) := by
    refine List.mem_filter.mpr ⟨List.mem_flatMap.mpr ⟨f, hf, ?_⟩, hselected⟩
    exact List.mem_map_of_mem hfield
  have hself : ∀ entry, sameName entry entry = true := fun entry => beq_self_eq_true _
  obtain ⟨entry, hentry, hsame⟩ := exists_mem_eraseDupsBy hself hmem
  exact ⟨entry, hentry, (beq_iff_eq.mp hsame).symm⟩

/-- The first accessibility that a report declares.  Without any the class is private inside
another type and internal elsewhere. -/
def classAccessibility (first : Fragment) (reports : List Fragment) : Accessibility :=
  (reports.filterMap fun f => f.accessibility).head?.getD
    (if first.containers = [] then .isInternal else .isPrivate)

/-- What the using directives of the reports name, and after that their aliases as
`alias = target`, nothing twice. -/
def classUsings (reports : List Fragment) : List String :=
  ((reports.flatMap fun f => f.usings) ++
    reports.flatMap fun f => f.aliases.map fun entry => entry.1 ++ " = " ++ entry.2).eraseDups

/-- The class that the reports of one full name describe, if one of their fields gets a
property. -/
def classOfReports? (known : KnownTypes) (marker : String) : List Fragment → Option ReactiveClass
  | [] => none
  | first :: more =>
    let fields := selectedFields known marker (first :: more)
    let accessibility := classAccessibility first (first :: more)
    if fields = [] then none
    else some {
      name := first.name
      space := first.space
      fullName := first.fullName
      accessibility
      properties := fields.map fun entry => propertyOf accessibility entry.2
      typeParameters := first.typeParameters
      containers := first.containers
      usings := classUsings (first :: more) }

/-- Reports with a selected field describe a class. -/
theorem exists_classOfReports? {reports : List Fragment}
    (hsome : selectedFields known marker reports ≠ []) :
    ∃ c, classOfReports? known marker reports = some c := by
  cases reports with
  | nil => exact absurd rfl hsome
  | cons first more => exact ⟨_, by rw [classOfReports?, if_neg hsome]⟩

/-- The class has a property for each selected field. -/
theorem properties_of_classOfReports? {reports : List Fragment} {c : ReactiveClass}
    (h : classOfReports? known marker reports = some c) :
    c.properties = (selectedFields known marker reports).map fun entry =>
      propertyOf c.accessibility entry.2 := by
  cases reports with
  | nil => cases h
  | cons first more =>
    rw [classOfReports?] at h
    split at h
    · cases h
    · cases h
      rfl

/-- The classes that a list of fragments describes, in order of first appearance. -/
def describedClasses (known : KnownTypes) (marker : String) (fragments : List Fragment) :
    List ReactiveClass :=
  (classNames fragments).filterMap fun name =>
    classOfReports? known marker (reportsOf name fragments)

/-! ## One class -/

theorem accessibilityOf_eq (first : Fragment) (more : List Fragment) :
    accessibilityOf first more = classAccessibility first (first :: more) := by
  have hnested : first.isNested = true ↔ ¬first.containers = [] := by
    simp [Fragment.isNested]
  rw [accessibilityOf, classAccessibility, List.head?_filterMap]
  by_cases hcontainers : first.containers = []
  · rw [if_pos hcontainers, if_neg fun h => hnested.mp h hcontainers]
  · rw [if_neg hcontainers, if_pos (hnested.mpr hcontainers)]

/-- A group describes the class that its reports describe. -/
theorem outcome_classOf? (g : Group)
    (hnames : ∀ f ∈ g.fragments, ∀ field ∈ f.fields, field.name ≠ "") :
    (classOf? known (.text marker) g).outcome = .ok (classOfReports? known marker g.fragments) := by
  obtain ⟨key, first, more⟩ := g
  have hentries : ∀ entry ∈ fieldsOf (first :: more), entry.2.name ≠ "" := by
    intro entry hentry
    obtain ⟨f, hf, hentry⟩ := List.mem_flatMap.mp hentry
    obtain ⟨field, hfield, rfl⟩ := List.mem_map.mp hentry
    exact hnames f hf field hfield
  have hloop : (propertiesFrom known (.text marker) first.fullName (accessibilityOf first more) []
      (fieldsOf (first :: more))).outcome =
        .ok ((selectedFields known marker (first :: more)).map fun entry =>
          propertyOf (accessibilityOf first more) entry.2) := by
    rw [outcome_propertiesFrom [] _ hentries]
    simp [selectedFields, fieldsOf]
  rw [accessibilityOf_eq] at hloop
  simp only [classOf?, Group.fragments, accessibilityOf_eq, Traced.outcome_bind, hloop,
    Except.bind, classOfReports?]
  cases hfields : selectedFields known marker (first :: more) with
  | nil => rfl
  | cons entry rest => rfl

/-! ## All classes -/

theorem outcome_classesOf (groups : List Group)
    (hnames : ∀ g ∈ groups, ∀ f ∈ g.fragments, ∀ field ∈ f.fields, field.name ≠ "") :
    (classesOf known (.text marker) groups).outcome =
      .ok (groups.filterMap fun g => classOfReports? known marker g.fragments) := by
  induction groups with
  | nil => rfl
  | cons g rest ih =>
    have hrest := ih fun g' hg' => hnames g' (List.mem_cons_of_mem _ hg')
    simp only [classesOf, Traced.outcome_bind, Traced.outcome_checkpoint, Except.bind,
      outcome_classOf? g (hnames g List.mem_cons_self), hrest]
    cases hclass : classOfReports? known marker g.fragments with
    | none => simp [hclass]
    | some c => simp [hclass]

/-- The groups describe the classes of the fragments. -/
theorem filterMap_group (fragments : List Fragment) :
    ((group fragments).filterMap fun g => classOfReports? known marker g.fragments) =
      describedClasses known marker fragments := by
  calc ((group fragments).filterMap fun g => classOfReports? known marker g.fragments)
      = ((group fragments).map Group.contents).filterMap fun c =>
          classOfReports? known marker c.2 := by
        rw [List.filterMap_map]
        rfl
    _ = describedClasses known marker fragments := by
        rw [group_eq, List.filterMap_map]
        rfl

/-- The full name of a type in a namespace, which may be the global one. -/
def qualifiedName (space name : String) : String :=
  if space = "" then name else space ++ "." ++ name

theorem markerFullName_eq {settings : Settings} {space name : String}
    (hspace : settings.markerNamespace = .text space) (hname : settings.markerName = .text name) :
    settings.markerFullName = .text (qualifiedName space name) := by
  rw [Settings.markerFullName, hspace, hname, qualifiedName]
  by_cases hempty : space = ""
  · simp [hempty, Value.isTrue]
  · simp [hempty, Value.isTrue]

/-- A name that is a text stands for itself if it is known. -/
theorem resolve?_text (known : KnownTypes) (name : String) :
    known.resolve? (.text name) =
      .ok (if name ∈ known.names then some (.text name) else none) := by
  by_cases hknown : name ∈ known.names
  · simp [KnownTypes.resolve?, KnownTypes.checkName, KnownTypes.find?, hknown]
  · simp [KnownTypes.resolve?, KnownTypes.checkName, KnownTypes.find?, hknown]

/-- A scan whose fields all have names returns the classes that the fragments describe, or
nothing if the marker is not known. -/
theorem scan_eq_describedClasses (settings : Settings) (known : KnownTypes)
    (fragments : List Fragment) {space name : String}
    (hspace : settings.markerNamespace = .text space) (hname : settings.markerName = .text name)
    (hfields : ∀ f ∈ fragments, ∀ field ∈ f.fields, field.name ≠ "") :
    (scan settings known fragments).outcome =
      .ok (if qualifiedName space name ∈ known.names then
        describedClasses known (qualifiedName space name) fragments else []) := by
  have hgroups : ∀ g ∈ group fragments, ∀ f ∈ g.fragments, ∀ field ∈ f.fields,
      field.name ≠ "" := fun g hg f hf => hfields f (mem_of_mem_group hg hf)
  rw [scan, markerFullName_eq hspace hname, Traced.outcome_bind, Traced.outcome_lift]
  by_cases hknown : qualifiedName space name ∈ known.names
  · have hresolved : known.resolve? (.text (qualifiedName space name)) =
        .ok (some (.text (qualifiedName space name))) := by
      simp [KnownTypes.resolve?, KnownTypes.checkName, KnownTypes.find?, hknown]
    simp only [hresolved, Except.bind, outcome_classesOf _ hgroups, filterMap_group, if_pos hknown]
  · have hresolved : known.resolve? (.text (qualifiedName space name)) = .ok none := by
      simp [KnownTypes.resolve?, KnownTypes.checkName, KnownTypes.find?, hknown]
    simp only [hresolved, Except.bind, if_neg hknown]
    rfl

/-- Two fragments of a class and a repeated report of the first.  The field that carries the
marker twice and the one of a blank type do not keep those of the second fragment out. -/
theorem scan_eq_describedClasses_partial :
    let first : Fragment := {
      name := "Car"
      space := "Shop"
      fields := [
        ⟨"_speed", some "int", ["ReactiveProperty", "ReactivePropertyAttribute"]⟩,
        ⟨"_owner", some " ", ["ReactiveProperty"]⟩,
        ⟨"_wheels", some "List< int>", ["Obsolete", "ReactiveProperty"]⟩,
        ⟨"Name", some "string", ["ReactiveProperty"]⟩]
      usings := ["ReactiveObject.Generators"] }
    let second : Fragment := {
      name := "Car"
      space := "Shop"
      accessibility := some .isPublic
      fields := [
        ⟨"_owner", some "string", ["R"]⟩,
        ⟨"_wheels", some "long", ["R"]⟩,
        ⟨"_speed", some "double", ["R"]⟩]
      aliases := [("R", "ReactiveObject.Generators.ReactivePropertyAttribute")] }
    let repeated : Fragment := { first with aliases := [("ReactiveProperty", "Other")] }
    let known := KnownTypes.ofNames ["ReactiveObject.Generators.ReactivePropertyAttribute"]
    (∀ f ∈ [first, second, repeated], ∀ field ∈ f.fields, field.name ≠ "") ∧
      (scan {} known [first, second, repeated]).outcome = .ok [{
        name := "Car"
        space := "Shop"
        fullName := "Shop.Car"
        accessibility := .isPublic
        properties := [
          ⟨"_wheels", "Wheels", .isPublic, "List< int>"⟩,
          ⟨"_owner", "Owner", .isPublic, "string"⟩,
          ⟨"_speed", "Speed", .isPublic, "double"⟩]
        usings := [
          "ReactiveObject.Generators",
          "R = ReactiveObject.Generators.ReactivePropertyAttribute"] }] := by
  intro first second repeated known
  have hfields : ∀ f ∈ [first, second, repeated], ∀ field ∈ f.fields, field.name ≠ "" := by
    decide
  refine ⟨hfields, ?_⟩
  rw [scan_eq_describedClasses {} known _ rfl rfl hfields]
  decide +kernel

end Backfield.Scan
