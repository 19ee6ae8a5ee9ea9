import Mathlib.Data.List.Forall2
import Mathlib.Data.List.Flatten
import Backfield.Proofs.Scan.Repeats

/-!
# The order of fragments

Files can be read in any order.  Where the fragments of a class agree on what is taken from one
of them, the order decides only about the order of what is found.

* `IsOrderFree` says on what the fragments of a class have to agree, and `IsOrderFree.perm` that
  they do so in any order.
* `SameReports` relates the reports of a class in two orders, and `sameReports_of_perm` says that
  they are so related.
* `propertiesFrom_of_nodup` is the loop over fields of different names: it decides about each field
  for itself.
* `describe_of_perm` says that both orders describe a class alike, with its properties and its
  using directives in two orders.
* `outcome_scan_perm` is the result for two scans.
-/

namespace Backfield

/-- The two fragments stand in one place and have one name and one list of type parameters. -/
structure Fragment.SamePlace (f g : Fragment) : Prop where
  name : f.name = g.name
  space : f.space = g.space
  containers : f.containers = g.containers
  typeParameters : f.typeParameters = g.typeParameters

theorem Fragment.SamePlace.fullName {f g : Fragment} (h : f.SamePlace g) :
    f.fullName = g.fullName := by
  rw [Fragment.fullName, Fragment.fullName, h.name, h.space, h.containers, h.typeParameters]

namespace Scan

variable {known : KnownTypes} {marker : Value} {accessibility : Accessibility}

/-! ## What the order may not decide -/

/-- The names of the fields that the fragments declare. -/
def fieldNames (fragments : List Fragment) : List String :=
  (fieldsOf fragments).map fun entry => entry.2.name

/-- The fragments of each class agree on its place and on its accessibility where they declare
one, and no two of its reports declare a field of one name.  Equal reports have equal aliases. -/
structure IsOrderFree (fragments : List Fragment) : Prop where
  named : ∀ f ∈ fragments, ∀ field ∈ f.fields, field.name ≠ ""
  place : ∀ f ∈ fragments, ∀ g ∈ fragments, f.fullName = g.fullName → f.SamePlace g
  aliases : ∀ f ∈ fragments, ∀ g ∈ fragments, f.sameReport g = true →
    f.aliases.SameEntries g.aliases
  accessibility : ∀ f ∈ fragments, ∀ g ∈ fragments, f.fullName = g.fullName →
    ∀ a ∈ f.accessibility, ∀ b ∈ g.accessibility, a = b
  distinct : ∀ name ∈ classNames fragments, (fieldNames (reportsOf name fragments)).Nodup

/-! ## Reports in two orders -/

/-- The fragment without its aliases, which are no part of a report. -/
def bare (f : Fragment) : Fragment := { f with aliases := [] }

theorem sameReport_eq (f g : Fragment) : f.sameReport g = (bare f == bare g) :=
  (Bool.beq_eq_decide_eq _ _).symm

/-- Apart from the aliases, the reports of a class are the same in any order. -/
theorem perm_map_bare_reportsOf {fragments others : List Fragment} (hperm : fragments.Perm others)
    (name : String) :
    ((reportsOf name fragments).map bare).Perm ((reportsOf name others).map bare) := by
  rw [reportsOf, reportsOf, map_eraseDupsBy sameReport_eq, map_eraseDupsBy sameReport_eq]
  exact perm_eraseDups ((hperm.filter _).map bare)

theorem fieldNames_eq (fragments : List Fragment) :
    fieldNames fragments =
      (fragments.map bare).flatMap fun f => f.fields.map fun field => field.name := by
  rw [fieldNames, fieldsOf, List.map_flatMap, List.flatMap_map]
  simp only [List.map_map]
  rfl

theorem perm_fieldNames {fragments others : List Fragment} (hperm : fragments.Perm others)
    (name : String) :
    (fieldNames (reportsOf name fragments)).Perm (fieldNames (reportsOf name others)) := by
  rw [fieldNames_eq, fieldNames_eq]
  exact (perm_map_bare_reportsOf hperm name).flatMap_right _

theorem perm_classNames {fragments others : List Fragment} (hperm : fragments.Perm others) :
    (classNames fragments).Perm (classNames others) :=
  perm_eraseDups (hperm.map Fragment.fullName)

theorem IsOrderFree.perm {fragments others : List Fragment} (h : IsOrderFree fragments)
    (hperm : fragments.Perm others) : IsOrderFree others where
  named := fun f hf => h.named f (hperm.mem_iff.mpr hf)
  place := fun f hf g hg => h.place f (hperm.mem_iff.mpr hf) g (hperm.mem_iff.mpr hg)
  aliases := fun f hf g hg => h.aliases f (hperm.mem_iff.mpr hf) g (hperm.mem_iff.mpr hg)
  accessibility := fun f hf g hg =>
    h.accessibility f (hperm.mem_iff.mpr hf) g (hperm.mem_iff.mpr hg)
  distinct := fun name hname => (perm_fieldNames hperm name).nodup_iff.mp
    (h.distinct name ((perm_classNames hperm).mem_iff.mpr hname))

/-- The reports are the same declarations with the same aliases, in whatever order. -/
structure SameReports (reports others : List Fragment) : Prop where
  forth : ∀ f ∈ reports, ∃ g ∈ others, f.IsCopy g
  back : ∀ g ∈ others, ∃ f ∈ reports, g.IsCopy f

theorem SameReports.symm {reports others : List Fragment} (h : SameReports reports others) :
    SameReports others reports :=
  ⟨h.back, h.forth⟩

/-- A report in one order is also one in the other order. -/
theorem exists_isCopy_of_perm {fragments others : List Fragment} (h : IsOrderFree fragments)
    (hperm : fragments.Perm others) {name : String} {f : Fragment}
    (hf : f ∈ reportsOf name fragments) : ∃ g ∈ reportsOf name others, f.IsCopy g := by
  have hbare := (perm_map_bare_reportsOf hperm name).mem_iff.mp (List.mem_map_of_mem hf)
  obtain ⟨g, hg, heq⟩ := List.mem_map.mp hbare
  have hsame : f.sameReport g = true := by
    rw [sameReport_eq, beq_iff_eq, heq]
  have hmem := hperm.mem_iff.mpr (mem_reportsOf hg).1
  exact ⟨g, hg, Fragment.sameDeclaration_of_sameReport hsame,
    h.aliases f (mem_reportsOf hf).1 g hmem hsame⟩

theorem sameReports_of_perm {fragments others : List Fragment} (h : IsOrderFree fragments)
    (hperm : fragments.Perm others) (name : String) :
    SameReports (reportsOf name fragments) (reportsOf name others) where
  forth := fun _ hf => exists_isCopy_of_perm h hperm hf
  back := fun _ hg => exists_isCopy_of_perm (h.perm hperm) hperm.symm hg

/-! ## One class -/

/-- The property of a field that has a name, if it gets one. -/
def chosen? (known : KnownTypes) (marker : Value) (accessibility : Accessibility)
    (entry : Fragment × Field) : Option Property :=
  if marksOfValue known marker entry.1 entry.2 == 1 && hasType entry.2 && isRenamed entry.2 then
    some (propertyOf accessibility entry.2)
  else none

theorem decision_of_name {entry : Fragment × Field} (hname : entry.2.name ≠ "") :
    decision known marker accessibility entry = .ok (chosen? known marker accessibility entry) := by
  rw [decision, if_neg hname, chosen?]
  cases marksOfValue known marker entry.1 entry.2 == 1 && hasType entry.2 <;> rfl

theorem field_of_chosen? {entry : Fragment × Field} {p : Property}
    (h : chosen? known marker accessibility entry = some p) : p.field = entry.2.name := by
  rw [chosen?] at h
  split at h
  · rw [← Option.some.inj h]
    rfl
  · cases h

/-- If no two fields have one name, the loop decides about each of them. -/
theorem propertiesFrom_of_nodup {className : String} {seen : List String}
    {entries : List (Fragment × Field)} (hnames : ∀ entry ∈ entries, entry.2.name ≠ "")
    (hseen : ∀ entry ∈ entries, entry.2.name ∉ seen)
    (hdistinct : (entries.map fun entry => entry.2.name).Nodup) :
    (propertiesFrom known marker className accessibility seen entries).outcome =
      .ok (entries.filterMap (chosen? known marker accessibility)) := by
  induction entries generalizing seen with
  | nil => rfl
  | cons entry rest ih =>
    rw [List.forall_mem_cons] at hnames hseen
    rw [List.map_cons, List.nodup_cons] at hdistinct
    have hrest : ∀ other ∈ rest, other.2.name ∉ entry.2.name :: seen := by
      intro other hother hmem
      rcases List.mem_cons.mp hmem with heq | hmem
      · exact hdistinct.1 (heq ▸ List.mem_map_of_mem hother)
      · exact hseen.2 other hother hmem
    rw [outcome_propertiesFrom_cons, if_neg hseen.1, decision_of_name hnames.1]
    cases hchosen : chosen? known marker accessibility entry with
    | none =>
      rw [List.filterMap_cons_none hchosen]
      exact ih hnames.2 hseen.2 hdistinct.2
    | some p =>
      rw [List.filterMap_cons_some hchosen]
      simp only [Except.bind, ih hnames.2 hrest hdistinct.2]
      rfl

/-- The properties of a class, in the order of its reports. -/
def chosenOf (known : KnownTypes) (marker : Value) (accessibility : Accessibility)
    (reports : List Fragment) : List Property :=
  (fieldsOf reports).filterMap (chosen? known marker accessibility)

theorem describe_of_isOrderFree {fragments : List Fragment} (h : IsOrderFree fragments)
    {name : String} {first : Fragment} {more : List Fragment}
    (hreports : reportsOf name fragments = first :: more) :
    describe known marker (reportsOf name fragments) =
      .ok (if chosenOf known marker (accessibilityOf first more) (first :: more) = [] then none
        else some (classWith first more
          (chosenOf known marker (accessibilityOf first more) (first :: more)))) := by
  have hnames : ∀ entry ∈ fieldsOf (first :: more), entry.2.name ≠ "" := by
    intro entry hentry
    obtain ⟨f, hf, hentry⟩ := List.mem_flatMap.mp hentry
    obtain ⟨field, hfield, rfl⟩ := List.mem_map.mp hentry
    exact h.named f (mem_reportsOf (hreports ▸ hf)).1 field hfield
  have hname : name ∈ classNames fragments := by
    by_contra hnone
    rw [reportsOf_of_not_mem hnone] at hreports
    cases hreports
  have hdistinct := h.distinct name hname
  rw [hreports] at hdistinct ⊢
  rw [describe_cons, propertiesFrom_of_nodup hnames (fun _ _ => List.not_mem_nil) hdistinct]
  rfl

theorem mem_chosenOf {reports : List Fragment} {p : Property} :
    p ∈ chosenOf known marker accessibility reports ↔
      ∃ f ∈ reports, ∃ field ∈ f.fields,
        chosen? known marker accessibility (f, field) = some p := by
  simp only [chosenOf, fieldsOf, List.mem_filterMap, List.mem_flatMap, List.mem_map]
  constructor
  · rintro ⟨_, ⟨f, hf, field, hfield, rfl⟩, hchosen⟩
    exact ⟨f, hf, field, hfield, hchosen⟩
  · rintro ⟨f, hf, field, hfield, hchosen⟩
    exact ⟨(f, field), ⟨f, hf, field, hfield, rfl⟩, hchosen⟩

theorem nodup_chosenOf {reports : List Fragment} (hdistinct : (fieldNames reports).Nodup) :
    (chosenOf known marker accessibility reports).Nodup := by
  refine List.Pairwise.filterMap _ ?_ (List.pairwise_map.mp hdistinct)
  rintro entry other hne p hp q hq rfl
  exact hne ((field_of_chosen? hp).symm.trans (field_of_chosen? hq))

theorem chosenOf_subset {reports others : List Fragment} (h : SameReports reports others)
    {p : Property} (hp : p ∈ chosenOf known marker accessibility reports) :
    p ∈ chosenOf known marker accessibility others := by
  obtain ⟨f, hf, field, hfield, hchosen⟩ := mem_chosenOf.mp hp
  obtain ⟨g, hg, hcopy⟩ := h.forth f hf
  refine mem_chosenOf.mpr ⟨g, hg, field, hcopy.declaration.fields ▸ hfield, ?_⟩
  rw [← hchosen, chosen?, chosen?, marksOfValue_of_isCopy hcopy]

/-- Both orders give the same properties. -/
theorem perm_chosenOf {reports others : List Fragment} (h : SameReports reports others)
    (hdistinct : (fieldNames reports).Nodup) (hothers : (fieldNames others).Nodup) :
    (chosenOf known marker accessibility reports).Perm
      (chosenOf known marker accessibility others) := by
  rw [List.perm_ext_iff_of_nodup (nodup_chosenOf hdistinct) (nodup_chosenOf hothers)]
  exact fun p => ⟨chosenOf_subset h, chosenOf_subset h.symm⟩

theorem mem_usingsOf {reports : List Fragment} {text : String} :
    text ∈ usingsOf reports ↔ ∃ f ∈ reports, text ∈ f.usings ∨ text ∈ aliasTexts f := by
  rw [usingsOf_eq, List.mem_eraseDups, List.mem_append, List.mem_flatMap, List.mem_flatMap]
  simp only [and_or_left, exists_or]

theorem usingsOf_subset {reports others : List Fragment} (h : SameReports reports others)
    {text : String} (htext : text ∈ usingsOf reports) : text ∈ usingsOf others := by
  obtain ⟨f, hf, htext⟩ := mem_usingsOf.mp htext
  obtain ⟨g, hg, hcopy⟩ := h.forth f hf
  refine mem_usingsOf.mpr ⟨g, hg, htext.imp (fun h => hcopy.declaration.usings ▸ h) fun h => ?_⟩
  obtain ⟨entry, hentry, rfl⟩ := List.mem_map.mp h
  exact List.mem_map_of_mem ((hcopy.aliases.entries entry).mp hentry)

theorem perm_usingsOf {reports others : List Fragment} (h : SameReports reports others) :
    (usingsOf reports).Perm (usingsOf others) := by
  have hnodup : ∀ reports, (usingsOf reports).Nodup := fun reports => nodup_eraseDups _
  rw [List.perm_ext_iff_of_nodup (hnodup reports) (hnodup others)]
  exact fun text => ⟨usingsOf_subset h, usingsOf_subset h.symm⟩

/-- If all that is declared is one accessibility, it does not matter where it is found first. -/
theorem findSome?_of_sameReports {reports others : List Fragment} (h : SameReports reports others)
    (hagree : ∀ f ∈ reports, ∀ g ∈ others, ∀ a ∈ f.accessibility, ∀ b ∈ g.accessibility, a = b) :
    reports.findSome? (·.accessibility) = others.findSome? (·.accessibility) := by
  have hnone : ∀ {reports others : List Fragment}, SameReports reports others →
      reports.findSome? (·.accessibility) = none → others.findSome? (·.accessibility) = none := by
    intro reports others h hreports
    rw [List.findSome?_eq_none_iff] at hreports ⊢
    intro g hg
    obtain ⟨f, hf, hcopy⟩ := h.back g hg
    rw [hcopy.declaration.accessibility, hreports f hf]
  cases hreports : reports.findSome? (·.accessibility) with
  | none => exact (hnone h hreports).symm
  | some a =>
    cases hothers : others.findSome? (·.accessibility) with
    | none =>
      rw [hnone h.symm hothers] at hreports
      cases hreports
    | some b =>
      obtain ⟨f, hf, ha⟩ := List.exists_of_findSome?_eq_some hreports
      obtain ⟨g, hg, hb⟩ := List.exists_of_findSome?_eq_some hothers
      rw [hagree f hf g hg a ha b hb]

/-- The two classes are the same but for the order of their properties and using directives. -/
structure SameClass (c d : ReactiveClass) : Prop where
  name : c.name = d.name
  space : c.space = d.space
  fullName : c.fullName = d.fullName
  accessibility : c.accessibility = d.accessibility
  properties : c.properties.Perm d.properties
  typeParameters : c.typeParameters = d.typeParameters
  containers : c.containers = d.containers
  usings : c.usings.Perm d.usings

theorem sameClass_classWith {first first' : Fragment} {more more' : List Fragment}
    {properties properties' : List Property}
    (hsame : SameReports (first :: more) (first' :: more')) (hplace : first.SamePlace first')
    (haccess : accessibilityOf first more = accessibilityOf first' more')
    (hproperties : properties.Perm properties') :
    SameClass (classWith first more properties) (classWith first' more' properties') where
  name := hplace.name
  space := hplace.space
  fullName := hplace.fullName
  accessibility := haccess
  properties := hproperties
  typeParameters := hplace.typeParameters
  containers := hplace.containers
  usings := perm_usingsOf hsame

/-- In two orders the reports of a class describe it alike. -/
theorem describe_of_perm {fragments others : List Fragment} (h : IsOrderFree fragments)
    (hperm : fragments.Perm others) {name : String} (hname : name ∈ classNames fragments) :
    ∃ found found', describe known marker (reportsOf name fragments) = .ok found ∧
      describe known marker (reportsOf name others) = .ok found' ∧
      Option.Rel SameClass found found' := by
  have hsame := sameReports_of_perm h hperm name
  have hdistinct := h.distinct name hname
  have hdistinct' := (perm_fieldNames hperm name).nodup_iff.mp hdistinct
  obtain ⟨first, more, hreports⟩ := exists_reportsOf_eq_cons hname
  obtain ⟨first', more', hreports'⟩ :=
    exists_reportsOf_eq_cons ((perm_classNames hperm).mem_iff.mp hname)
  have hmem : ∀ f ∈ first :: more, f ∈ fragments ∧ f.fullName = name :=
    fun f hf => mem_reportsOf (hreports ▸ hf)
  have hmem' : ∀ g ∈ first' :: more', g ∈ fragments ∧ g.fullName = name := fun g hg =>
    (mem_reportsOf (hreports' ▸ hg)).imp_left hperm.mem_iff.mpr
  have hname' : ∀ f ∈ first :: more, ∀ g ∈ first' :: more', f.fullName = g.fullName :=
    fun f hf g hg => (hmem f hf).2.trans (hmem' g hg).2.symm
  have hplace : first.SamePlace first' := h.place first (hmem _ List.mem_cons_self).1 first'
    (hmem' _ List.mem_cons_self).1 (hname' _ List.mem_cons_self _ List.mem_cons_self)
  rw [describe_of_isOrderFree h hreports, describe_of_isOrderFree (h.perm hperm) hreports']
  rw [hreports] at hsame hdistinct
  rw [hreports'] at hsame hdistinct'
  have haccess : accessibilityOf first more = accessibilityOf first' more' := by
    rw [accessibilityOf, accessibilityOf, Fragment.isNested, Fragment.isNested, hplace.containers,
      findSome?_of_sameReports hsame fun f hf g hg =>
        h.accessibility f (hmem f hf).1 g (hmem' g hg).1 (hname' f hf g hg)]
  have hproperties := @perm_chosenOf known marker (accessibilityOf first more) _ _ hsame hdistinct
    hdistinct'
  rw [← haccess]
  refine ⟨_, _, rfl, rfl, ?_⟩
  by_cases hnone : chosenOf known marker (accessibilityOf first more) (first :: more) = []
  · rw [hnone] at hproperties
    rw [if_pos hnone, if_pos hproperties.symm.eq_nil]
    exact .none
  · rw [if_neg hnone, if_neg fun hnone' => hnone (hnone' ▸ hproperties).eq_nil]
    exact .some (sameClass_classWith hsame hplace haccess hproperties)

/-! ## All classes -/

/-- The two lists have the same classes, but for the order of the classes and the order inside
each of them. -/
def SameClasses (classes others : List ReactiveClass) : Prop :=
  ∃ sorted, List.Forall₂ SameClass classes sorted ∧ sorted.Perm others

theorem forall₂_flatMap {α β γ : Type} {R : β → γ → Prop} {f : α → List β} {g : α → List γ}
    {xs : List α} (h : ∀ x ∈ xs, List.Forall₂ R (f x) (g x)) :
    List.Forall₂ R (xs.flatMap f) (xs.flatMap g) := by
  induction xs with
  | nil => exact .nil
  | cons x xs ih =>
    rw [List.forall_mem_cons] at h
    exact List.rel_append h.1 (ih h.2)

theorem forall₂_toList {α β : Type} {R : α → β → Prop} {a : Option α} {b : Option β}
    (h : Option.Rel R a b) : List.Forall₂ R a.toList b.toList := by
  cases h with
  | none => exact .nil
  | some hab => exact .cons hab .nil

/-- In two orders the classes are described alike, one by one. -/
theorem describeIn_of_perm {fragments others : List Fragment} (h : IsOrderFree fragments)
    (hperm : fragments.Perm others) {name : String} (hname : name ∈ classNames fragments) :
    describeIn known marker fragments name =
        .ok (foundFor (describeIn known marker fragments) name) ∧
      describeIn known marker others name =
        .ok (foundFor (describeIn known marker others) name) ∧
      List.Forall₂ SameClass (foundFor (describeIn known marker fragments) name)
        (foundFor (describeIn known marker others) name) := by
  obtain ⟨found, found', hfound, hfound', hrel⟩ :=
    @describe_of_perm known marker _ _ h hperm _ hname
  have hok : describeIn known marker fragments name = .ok found.toList := by
    rw [describeIn, hfound]
    rfl
  have hok' : describeIn known marker others name = .ok found'.toList := by
    rw [describeIn, hfound']
    rfl
  rw [foundFor_of_ok hok, foundFor_of_ok hok']
  exact ⟨hok, hok', forall₂_toList hrel⟩

/-- Only a marker's name that no lookup takes is answered with an error. -/
theorem checkName_of_resolve? {name : Value} {e : Error} (h : known.resolve? name = .error e) :
    KnownTypes.checkName name = .error e := by
  cases name with
  | list _ | object _ =>
    cases h
    rfl
  | _ => cases h

/-- If the fragments of each class agree on what is taken from one of them, their order decides
only about the order of what a scan finds.  A scan in any order fails only where the marker's name
is none that can be looked up. -/
theorem outcome_scan_perm (settings : Settings) (known : KnownTypes)
    {fragments others : List Fragment} (h : IsOrderFree fragments)
    (hperm : fragments.Perm others) :
    (∃ e, KnownTypes.checkName settings.markerFullName = .error e ∧
      (scan settings known fragments).outcome = .error e ∧
      (scan settings known others).outcome = .error e) ∨
    ∃ classes classes', (scan settings known fragments).outcome = .ok classes ∧
      (scan settings known others).outcome = .ok classes' ∧ SameClasses classes classes' := by
  rw [outcome_scan_eq, outcome_scan_eq]
  cases hresolve : known.resolve? settings.markerFullName with
  | error e => exact Or.inl ⟨e, checkName_of_resolve? hresolve, rfl, rfl⟩
  | ok found =>
    refine Or.inr ?_
    cases found with
    | none => exact ⟨[], [], rfl, rfl, [], .nil, .nil⟩
    | some marker =>
      have hfound := fun name hname => @describeIn_of_perm known marker _ _ h hperm name hname
      have hnames := perm_classNames hperm
      refine ⟨_, _, inTurn_eq_ok fun name hname => (hfound name hname).1,
        inTurn_eq_ok fun name hname => (hfound name (hnames.mem_iff.mpr hname)).2.1,
        _, forall₂_flatMap fun name hname => (hfound name hname).2.2, hnames.flatMap_right _⟩

/-- A class with a declaration that is reported twice, the aliases in two orders, and with another
declaration that tells its accessibility.  From the back, the class comes last, is described by
its other declaration, and gets its properties in another order. -/
theorem outcome_scan_perm_reverse :
    let marker := "ReactiveObject.Generators.ReactivePropertyAttribute"
    let report : Fragment := {
      name := "Car"
      space := "Shop"
      fields := [⟨"_speed", some "int", ["R"]⟩]
      usings := ["System"]
      aliases := [("R", marker), ("S", "System")] }
    let again : Fragment := { report with aliases := [("S", "System"), ("R", marker)] }
    let other : Fragment := {
      name := "Car"
      space := "Shop"
      accessibility := some .isPublic
      fields := [⟨"_owner", some "string", ["ReactiveProperty"]⟩]
      usings := ["ReactiveObject.Generators"] }
    let depot : Fragment := {
      name := "Depot"
      fields := [⟨"_cars", some "int", ["ReactiveProperty"]⟩]
      usings := ["ReactiveObject.Generators"] }
    let fragments := [report, other, again, depot]
    let known := KnownTypes.ofNames [marker]
    (IsOrderFree fragments ∧ fragments.Perm fragments.reverse) ∧
    ∃ classes classes', (scan {} known fragments).outcome = .ok classes ∧
      (scan {} known fragments.reverse).outcome = .ok classes' ∧
      SameClasses classes classes' ∧ classes ≠ classes' := by
  intro marker report again other depot fragments known
  have hplace : ∀ f ∈ fragments, ∀ g ∈ fragments, f.fullName = g.fullName →
      f.name = g.name ∧ f.space = g.space ∧ f.containers = g.containers ∧
        f.typeParameters = g.typeParameters := by
    decide +kernel
  have haliases : ∀ f ∈ fragments, ∀ g ∈ fragments, f.sameReport g = true →
      (f.aliases.map Prod.fst).Nodup ∧ f.aliases.Perm g.aliases := by
    decide +kernel
  have hfree : IsOrderFree fragments := by
    refine ⟨by decide +kernel, fun f hf g hg hname => ?_, fun f hf g hg hsame => ?_,
      by decide +kernel, by decide +kernel⟩
    · obtain ⟨hname, hspace, hcontainers, hparameters⟩ := hplace f hf g hg hname
      exact ⟨hname, hspace, hcontainers, hparameters⟩
    · obtain ⟨hkeys, hperm⟩ := haliases f hf g hg hsame
      exact Aliases.SameEntries.of_perm hkeys hperm
  have hperm : fragments.Perm fragments.reverse := (List.reverse_perm fragments).symm
  refine ⟨⟨hfree, hperm⟩, ?_⟩
  rcases outcome_scan_perm {} known hfree hperm with ⟨e, he, -⟩ | ⟨classes, classes', hscan⟩
  · cases he
  · refine ⟨classes, classes', hscan.1, hscan.2.1, hscan.2.2, ?_⟩
    rintro rfl
    have hdiffer : (scan {} known fragments).outcome ≠
        (scan {} known fragments.reverse).outcome := by
      decide +kernel
    exact hdiffer (hscan.1.trans hscan.2.1.symm)

end Scan

end Backfield
