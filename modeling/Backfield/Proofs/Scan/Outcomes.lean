import Backfield.Proofs.Scan.Groups
import Backfield.Proofs.Scan.Selection

/-!
# A scan one class at a time

How a scan ends, with whatever marker and whatever fields, also when it fails.  `Scan.Classes`
says more, but only of fields that have names.

* `outcome_propertiesFrom_cons` is one step of the loop over the fields of a class.
* `describe` is the outcome for the reports of one class; `outcome_classOf?_eq` puts it together
  from the loop.
* `outcome_scan_eq` is the result: a scan describes one class after the other, each from its own
  reports, and the first failure ends it.
-/

namespace Backfield.Scan

variable {known : KnownTypes} {marker : Value} {className : String} {accessibility : Accessibility}
variable {fragment : Fragment} {field : Field}

/-! ## One field -/

/-- How many attributes of a field bind to a marker that may be no text. -/
def marksOfValue (known : KnownTypes) (marker : Value) (fragment : Fragment) (field : Field) :
    Nat :=
  field.attributes.countP fun written =>
    (Binding.bindAttribute? known fragment written).map Value.text = some marker

theorem outcome_countMarks_value (attributes : List String) :
    (countMarks known fragment marker attributes).outcome =
      .ok (attributes.countP fun written =>
        (Binding.bindAttribute? known fragment written).map Value.text = some marker) := by
  induction attributes with
  | nil => rfl
  | cons written rest ih =>
    simp only [countMarks, Traced.outcome_bind, outcome_bindAttribute, ih, Traced.outcome_pure,
      Except.bind, List.countP_cons]
    split <;> simp_all [Nat.add_comm]

theorem outcome_isMarked_value :
    (isMarked known fragment marker field).outcome =
      .ok (marksOfValue known marker fragment field == 1) := by
  simp only [isMarked, Traced.outcome_bind, outcome_countMarks_value, Except.bind]
  split <;> rfl

/-- What is decided about a field.  The name of its class does not matter. -/
def decision (known : KnownTypes) (marker : Value) (accessibility : Accessibility)
    (entry : Fragment × Field) : Except Error (Option Property) :=
  if marksOfValue known marker entry.1 entry.2 == 1 && hasType entry.2 then
    if entry.2.name = "" then .error .emptyFieldName
    else .ok (if isRenamed entry.2 then some (propertyOf accessibility entry.2) else none)
  else .ok none

theorem outcome_property?_eq :
    (property? known marker className accessibility fragment field).outcome =
      decision known marker accessibility (fragment, field) :=
  outcome_property?_of_isMarked outcome_isMarked_value

/-- A property is made for a field that has a name, a type, and a property name of its own. -/
theorem decision_eq_some {entry : Fragment × Field} {p : Property}
    (h : decision known marker accessibility entry = .ok (some p)) :
    entry.2.name ≠ "" ∧ hasType entry.2 = true ∧ isRenamed entry.2 = true ∧
      p = propertyOf accessibility entry.2 := by
  unfold decision at h
  split_ifs at h with hmarked hname hrenamed
  · exact ⟨hname, (Bool.and_eq_true_iff.mp hmarked).2, hrenamed,
      (Option.some.inj (Except.ok.inj h)).symm⟩
  all_goals cases h

/-! ## All fields of a class -/

/-- One step of the loop over the fields. -/
theorem outcome_propertiesFrom_cons (seen : List String) (entry : Fragment × Field)
    (rest : List (Fragment × Field)) :
    (propertiesFrom known marker className accessibility seen (entry :: rest)).outcome =
      if entry.2.name ∈ seen then
        (propertiesFrom known marker className accessibility seen rest).outcome
      else (decision known marker accessibility entry).bind fun found =>
        match found with
        | none => (propertiesFrom known marker className accessibility seen rest).outcome
        | some p => (propertiesFrom known marker className accessibility (entry.2.name :: seen)
            rest).outcome.map (p :: ·) := by
  obtain ⟨fragment, field⟩ := entry
  rw [propertiesFrom]
  split
  · rfl
  · rw [Traced.outcome_bind, outcome_property?_eq]
    congr 1
    funext found
    cases found with
    | none => rfl
    | some p =>
      rw [Traced.outcome_bind]
      rfl

/-- The class of a group is made of the properties that its fields get. -/
theorem outcome_classOf?_eq (g : Group) :
    (classOf? known marker g).outcome =
      (propertiesFrom known marker g.first.fullName (accessibilityOf g.first g.more) []
        (fieldsOf g.fragments)).outcome.map fun properties =>
          if properties = [] then none
          else some {
            name := g.first.name
            space := g.first.space
            fullName := g.first.fullName
            accessibility := accessibilityOf g.first g.more
            properties
            typeParameters := g.first.typeParameters
            containers := g.first.containers
            usings := usingsOf g.fragments } := by
  rw [classOf?, Traced.outcome_bind]
  cases (propertiesFrom known marker g.first.fullName (accessibilityOf g.first g.more) []
    (fieldsOf g.fragments)).outcome with
  | error e => rfl
  | ok properties =>
    cases properties with
    | nil => rfl
    | cons p rest => rfl

/-! ## All classes -/

/-- What the reports of one class describe. -/
def describe (known : KnownTypes) (marker : Value) :
    List Fragment → Except Error (Option ReactiveClass)
  | [] => .ok none
  | first :: more => (classOf? known marker ⟨first.fullName, first, more⟩).outcome

/-- The class of some reports with these properties.  What belongs to the class as a whole is taken
from the first report. -/
def classWith (first : Fragment) (more : List Fragment) (properties : List Property) :
    ReactiveClass where
  name := first.name
  space := first.space
  fullName := first.fullName
  accessibility := accessibilityOf first more
  properties
  typeParameters := first.typeParameters
  containers := first.containers
  usings := usingsOf (first :: more)

theorem describe_cons (known : KnownTypes) (marker : Value) (first : Fragment)
    (more : List Fragment) :
    describe known marker (first :: more) =
      (propertiesFrom known marker first.fullName (accessibilityOf first more) []
        (fieldsOf (first :: more))).outcome.map fun properties =>
          if properties = [] then none else some (classWith first more properties) :=
  outcome_classOf?_eq _

theorem outcome_classOf?_describe (g : Group) :
    (classOf? known marker g).outcome = describe known marker g.fragments := rfl

/-- What is found for some names, in order.  The first failure ends it. -/
def inTurn {α : Type} (find : String → Except Error (List α)) (names : List String) :
    Except Error (List α) := (names.mapM find).map List.flatten

theorem inTurn_nil {α : Type} (find : String → Except Error (List α)) : inTurn find [] = .ok [] :=
  rfl

theorem inTurn_cons {α : Type} (find : String → Except Error (List α)) (name : String)
    (rest : List String) :
    inTurn find (name :: rest) =
      (find name).bind fun found => (inTurn find rest).map (found ++ ·) := by
  rw [inTurn, inTurn, List.mapM_cons]
  cases find name with
  | error e => rfl
  | ok found => cases rest.mapM find <;> rfl

theorem inTurn_congr {α : Type} {find find' : String → Except Error (List α)} {names : List String}
    (h : ∀ name ∈ names, find name = find' name) : inTurn find names = inTurn find' names := by
  induction names with
  | nil => rfl
  | cons name rest ih =>
    rw [inTurn_cons, inTurn_cons, h name List.mem_cons_self,
      ih fun other hother => h other (List.mem_cons_of_mem _ hother)]

/-- What is found for a name, and nothing if that fails. -/
def foundFor {α : Type} (find : String → Except Error (List α)) (name : String) : List α :=
  (find name).toOption.getD []

theorem foundFor_of_ok {α : Type} {find : String → Except Error (List α)} {name : String}
    {found : List α} (h : find name = .ok found) : foundFor find name = found := by
  rw [foundFor, h]
  rfl

/-- If no name fails, all that is found is there, name after name. -/
theorem inTurn_of_eq_ok {α : Type} {find : String → Except Error (List α)} {names : List String}
    {all : List α} (h : inTurn find names = .ok all) :
    (∀ name ∈ names, find name = .ok (foundFor find name)) ∧
      all = names.flatMap (foundFor find) := by
  induction names generalizing all with
  | nil =>
    cases h
    exact ⟨fun _ hname => absurd hname List.not_mem_nil, rfl⟩
  | cons name rest ih =>
    rw [inTurn_cons] at h
    obtain ⟨found, hfind, hmore⟩ := exists_of_bind_eq_ok h
    obtain ⟨others, hrest, rfl⟩ := exists_of_map_eq_ok hmore
    obtain ⟨hok, hothers⟩ := ih hrest
    refine ⟨fun other hother => ?_, ?_⟩
    · rcases List.mem_cons.mp hother with rfl | hother
      · rw [hfind, foundFor_of_ok hfind]
      · exact hok other hother
    · rw [List.flatMap_cons, foundFor_of_ok hfind, ← hothers]

/-- If something is found for every name, all of it is there, name after name. -/
theorem inTurn_eq_ok {α : Type} {find : String → Except Error (List α)} {names : List String}
    {found : String → List α} (h : ∀ name ∈ names, find name = .ok (found name)) :
    inTurn find names = .ok (names.flatMap found) := by
  induction names with
  | nil => rfl
  | cons name rest ih =>
    rw [inTurn_cons, h name List.mem_cons_self,
      ih fun other hother => h other (List.mem_cons_of_mem _ hother)]
    rfl

/-- The class of one name among some fragments, if it has a property. -/
def describeIn (known : KnownTypes) (marker : Value) (fragments : List Fragment) (name : String) :
    Except Error (List ReactiveClass) :=
  (describe known marker (reportsOf name fragments)).map Option.toList

theorem outcome_classesOf_inTurn {groups : List Group} {names : List String}
    {reports : String → List Fragment}
    (h : groups.map Group.contents = names.map fun name => (name, reports name)) :
    (classesOf known marker groups).outcome =
      inTurn (fun name => (describe known marker (reports name)).map Option.toList) names := by
  induction groups generalizing names with
  | nil =>
    rw [List.map_nil, eq_comm, List.map_eq_nil_iff] at h
    rw [h]
    rfl
  | cons g rest ih =>
    cases names with
    | nil => cases h
    | cons name names =>
      obtain ⟨hcontents, hrest⟩ := List.cons.inj h
      have hreports : g.fragments = reports name := congrArg Prod.snd hcontents
      simp only [classesOf, Traced.outcome_bind, Traced.outcome_checkpoint,
        outcome_classOf?_describe, ih hrest, inTurn_cons, hreports, Traced.outcome_pure,
        Except.bind]
      cases describe known marker (reports name) with
      | error e => rfl
      | ok found => cases inTurn _ names <;> rfl

/-- A scan describes the classes in order of first appearance, each from its own reports. -/
theorem outcome_scan_eq (settings : Settings) (fragments : List Fragment) :
    (scan settings known fragments).outcome =
      (known.resolve? settings.markerFullName).bind fun found =>
        match found with
        | none => .ok []
        | some marker => inTurn (describeIn known marker fragments) (classNames fragments) := by
  rw [scan, Traced.outcome_bind, Traced.outcome_lift]
  congr 1
  funext found
  cases found with
  | none => rfl
  | some marker => exact outcome_classesOf_inTurn (group_eq fragments)

/-- A class that a scan returns is described by the reports of one name. -/
theorem exists_describe_of_mem {settings : Settings} {fragments : List Fragment}
    {classes : List ReactiveClass} {c : ReactiveClass}
    (hscan : (scan settings known fragments).outcome = .ok classes) (hc : c ∈ classes) :
    ∃ marker name, describe known marker (reportsOf name fragments) = .ok (some c) := by
  rw [outcome_scan_eq] at hscan
  obtain ⟨found, -, hfound⟩ := exists_of_bind_eq_ok hscan
  cases found with
  | none =>
    cases hfound
    cases hc
  | some marker =>
    obtain ⟨hok, hall⟩ := inTurn_of_eq_ok hfound
    rw [hall] at hc
    obtain ⟨name, hname, hc⟩ := List.mem_flatMap.mp hc
    have hfind : (describe known marker (reportsOf name fragments)).map Option.toList =
        .ok (foundFor (describeIn known marker fragments) name) := hok name hname
    obtain ⟨described, hdescribe, hlist⟩ := exists_of_map_eq_ok hfind
    rw [← hlist, Option.mem_toList] at hc
    exact ⟨marker, name, hdescribe.trans (congrArg Except.ok hc)⟩

end Backfield.Scan
