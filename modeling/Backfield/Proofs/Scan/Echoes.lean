import Backfield.Proofs.Scan.Order

/-!
# Echoes of a class

The part of a class that has been generated for it can be among the fragments of the next scan.
It echoes the class: it has its place, its accessibility and its using directives, and no fields.

* `Echoes` says so of a fragment and the reports of a class.
* `describe_echo_after` and `describe_echo_before` are the two steps: the reports describe the same
  class with an echo behind them and with an echo before them.
* `outcome_scan_echoes` is the result: a scan finds the same with an echo of each of its classes.
-/

namespace Backfield.Scan

variable {known : KnownTypes} {marker : Value}

/-- Where nothing is found, nothing is lost. -/
theorem flatMap_filter_of_nil {α β : Type} {find : α → List β} {p : α → Bool} {xs : List α}
    (h : ∀ x ∈ xs, p x = false → find x = []) : (xs.filter p).flatMap find = xs.flatMap find := by
  induction xs with
  | nil => rfl
  | cons x xs ih =>
    rw [List.forall_mem_cons] at h
    cases hx : p x with
    | false =>
      rw [List.filter_cons_of_neg (by simp [hx]), List.flatMap_cons, h.1 hx, List.nil_append,
        ih h.2]
    | true => rw [List.filter_cons_of_pos hx, List.flatMap_cons, List.flatMap_cons, ih h.2]

/-! ## The reports with an echo -/

/-- The fragment stands in place of all reports of a class but for their fields. -/
structure Echoes (echo first : Fragment) (more : List Fragment) : Prop where
  place : echo.SamePlace first
  accessibility : echo.accessibility = some (accessibilityOf first more)
  fields : echo.fields = []
  usings : echo.usings = ((first :: more).flatMap (·.usings)).eraseDups
  aliases : aliasTexts echo = ((first :: more).flatMap aliasTexts).eraseDups

namespace Echoes

variable {echo first : Fragment} {more : List Fragment}

theorem usings_subset (h : Echoes echo first more) :
    [echo].flatMap (·.usings) ⊆ (first :: more).flatMap (·.usings) := by
  intro name hname
  rw [List.flatMap_singleton, h.usings] at hname
  exact List.mem_eraseDups.mp hname

theorem aliases_subset (h : Echoes echo first more) :
    [echo].flatMap aliasTexts ⊆ (first :: more).flatMap aliasTexts := by
  intro text htext
  rw [List.flatMap_singleton, h.aliases] at htext
  exact List.mem_eraseDups.mp htext

theorem usingsOf_after (h : Echoes echo first more) :
    usingsOf (first :: more ++ [echo]) = usingsOf (first :: more) := by
  have hinsert := usingsOf_insert_of_subset [] h.usings_subset h.aliases_subset
  rwa [List.append_nil, List.append_nil] at hinsert

/-- All that reports name, their echo names. -/
theorem usingsOf_before (h : Echoes echo first more) {fewer : List Fragment}
    (hfewer : fewer ⊆ first :: more) : usingsOf (echo :: fewer) = usingsOf (first :: more) := by
  have hplain : fewer.flatMap (·.usings) ⊆ [echo].flatMap (·.usings) := by
    intro name hname
    obtain ⟨f, hf, hname⟩ := List.mem_flatMap.mp hname
    rw [List.flatMap_singleton, h.usings, List.mem_eraseDups]
    exact List.mem_flatMap.mpr ⟨f, hfewer hf, hname⟩
  have haliases : fewer.flatMap aliasTexts ⊆ [echo].flatMap aliasTexts := by
    intro text htext
    obtain ⟨f, hf, htext⟩ := List.mem_flatMap.mp htext
    rw [List.flatMap_singleton, h.aliases, List.mem_eraseDups]
    exact List.mem_flatMap.mpr ⟨f, hfewer hf, htext⟩
  have hinsert := usingsOf_insert_of_subset [] hplain haliases
  rw [List.append_nil, List.append_nil, List.singleton_append] at hinsert
  rw [hinsert, usingsOf_eq, List.flatMap_singleton, List.flatMap_singleton, h.usings, h.aliases,
    eraseDups_append_eraseDups, usingsOf_eq]

theorem accessibilityOf_after (h : Echoes echo first more) :
    accessibilityOf first (more ++ [echo]) = accessibilityOf first more := by
  have hecho := h.accessibility
  rw [accessibilityOf] at hecho ⊢
  rw [← List.cons_append, List.findSome?_append]
  cases hfound : (first :: more).findSome? (·.accessibility) with
  | some a => rw [Option.some_or, accessibilityOf, hfound]
  | none =>
    rw [hfound] at hecho
    rw [Option.none_or, List.findSome?_singleton, hecho, accessibilityOf, hfound]
    rfl

theorem accessibilityOf_before (h : Echoes echo first more) (fewer : List Fragment) :
    accessibilityOf echo fewer = accessibilityOf first more := by
  rw [accessibilityOf, List.findSome?_cons, h.accessibility]
  rfl

end Echoes

/-- With an echo of it behind its reports, the class is the same. -/
theorem describe_echo_after {echo first : Fragment} {more : List Fragment}
    (h : Echoes echo first more) :
    describe known marker (first :: more ++ [echo]) = describe known marker (first :: more) := by
  have hfields : fieldsOf (first :: more ++ [echo]) = fieldsOf (first :: more) := by
    rw [fieldsOf_append, fieldsOf_cons echo, h.fields]
    exact List.append_nil _
  have husings := h.usingsOf_after
  rw [List.cons_append] at hfields husings ⊢
  rw [describe_cons, describe_cons, hfields, h.accessibilityOf_after]
  simp only [classWith, h.accessibilityOf_after, husings]

/-- With an echo of it before its reports, the class is the same.  A report that the echo repeats is
dropped, and has no fields. -/
theorem describe_echo_before {echo first : Fragment} {more : List Fragment}
    (h : Echoes echo first more) :
    describe known marker (echo :: (first :: more).filter fun f => f.sameReport echo = false) =
      describe known marker (first :: more) := by
  have hfields : fieldsOf (echo :: (first :: more).filter fun f => f.sameReport echo = false) =
      fieldsOf (first :: more) := by
    rw [fieldsOf_cons, h.fields, List.map_nil, List.nil_append, fieldsOf, flatMap_filter_of_nil,
      fieldsOf]
    intro f _ hsame
    have hsame' : f.sameReport echo = true := by simpa using hsame
    rw [(Fragment.sameDeclaration_of_sameReport hsame').fields, h.fields, List.map_nil]
  have hclass : ∀ properties,
      classWith echo ((first :: more).filter fun f => f.sameReport echo = false) properties =
        classWith first more properties := by
    intro properties
    rw [classWith, classWith, h.accessibilityOf_before,
      h.usingsOf_before (List.filter_sublist).subset, h.place.fullName, h.place.name,
      h.place.space, h.place.typeParameters, h.place.containers]
  rw [describe_cons, describe_cons, hfields, h.accessibilityOf_before, h.place.fullName]
  simp only [hclass]

/-! ## Classes by name -/

/-- The class of a name, if its reports describe one. -/
def classIn? (known : KnownTypes) (marker : Value) (fragments : List Fragment) (name : String) :
    Option ReactiveClass :=
  (describe known marker (reportsOf name fragments)).toOption.join

theorem exists_of_describe_eq_some {reports : List Fragment} {c : ReactiveClass}
    (h : describe known marker reports = .ok (some c)) :
    ∃ first more properties, reports = first :: more ∧ c = classWith first more properties := by
  cases reports with
  | nil => cases h
  | cons first more =>
    rw [describe_cons] at h
    obtain ⟨properties, -, hclass⟩ := exists_of_map_eq_ok h
    split at hclass
    · cases hclass
    · exact ⟨first, more, properties, rfl, (Option.some.inj hclass).symm⟩

/-- A class is found under its full name, and its reports are there. -/
theorem exists_of_classIn?_eq_some {fragments : List Fragment} {name : String} {c : ReactiveClass}
    (h : classIn? known marker fragments name = some c) :
    c.fullName = name ∧ ∃ first more properties, reportsOf name fragments = first :: more ∧
      c = classWith first more properties := by
  have hdescribe : describe known marker (reportsOf name fragments) = .ok (some c) := by
    rw [classIn?] at h
    cases hd : describe known marker (reportsOf name fragments) with
    | error e =>
      rw [hd] at h
      cases h
    | ok found =>
      rw [hd] at h
      exact congrArg Except.ok h
  obtain ⟨first, more, properties, hreports, rfl⟩ := exists_of_describe_eq_some hdescribe
  have hfirst : first ∈ reportsOf name fragments := hreports ▸ List.mem_cons_self
  exact ⟨(mem_reportsOf hfirst).2, first, more, properties, hreports, rfl⟩

theorem mem_classNames_of_classIn? {fragments : List Fragment} {name : String} {c : ReactiveClass}
    (h : classIn? known marker fragments name = some c) : name ∈ classNames fragments := by
  obtain ⟨-, first, more, -, hreports, -⟩ := exists_of_classIn?_eq_some h
  by_contra hnone
  rw [reportsOf_of_not_mem hnone] at hreports
  cases hreports

theorem inTurn_describeIn {fragments : List Fragment} {names : List String}
    {found : String → Option ReactiveClass}
    (h : ∀ name, describe known marker (reportsOf name fragments) = .ok (found name)) :
    inTurn (describeIn known marker fragments) names = .ok (names.filterMap found) := by
  have hfind : ∀ name ∈ names,
      describeIn known marker fragments name = .ok (found name).toList := by
    intro name _
    rw [describeIn, h]
    rfl
  rw [inTurn_eq_ok hfind, List.filterMap_eq_flatMap_toList]

/-- If no description fails, each name describes the class that is found under it. -/
theorem describe_of_inTurn {fragments : List Fragment} {classes : List ReactiveClass}
    (h : inTurn (describeIn known marker fragments) (classNames fragments) = .ok classes)
    (name : String) :
    describe known marker (reportsOf name fragments) =
      .ok (classIn? known marker fragments name) := by
  have hok : ∃ found, describe known marker (reportsOf name fragments) = .ok found := by
    by_cases hname : name ∈ classNames fragments
    · have hfind := (inTurn_of_eq_ok h).1 name hname
      rw [describeIn] at hfind
      obtain ⟨found, hfound, -⟩ := exists_of_map_eq_ok hfind
      exact ⟨found, hfound⟩
    · rw [reportsOf_of_not_mem hname]
      exact ⟨none, rfl⟩
  obtain ⟨found, hfound⟩ := hok
  rw [classIn?, hfound]
  rfl

/-- The classes of all names. -/
def classesIn (known : KnownTypes) (marker : Value) (fragments : List Fragment) :
    List ReactiveClass :=
  (classNames fragments).filterMap (classIn? known marker fragments)

theorem mem_classesIn {fragments : List Fragment} {c : ReactiveClass} :
    c ∈ classesIn known marker fragments ↔
      classIn? known marker fragments c.fullName = some c := by
  rw [classesIn, List.mem_filterMap]
  constructor
  · rintro ⟨name, -, hfound⟩
    rwa [(exists_of_classIn?_eq_some hfound).1]
  · exact fun hfound => ⟨_, mem_classNames_of_classIn? hfound, hfound⟩

/-- Among all classes, the one with a name is the one that is found under it. -/
theorem filter_classesIn (known : KnownTypes) (marker : Value) (fragments : List Fragment)
    (name : String) :
    (classesIn known marker fragments).filter (fun c => c.fullName == name) =
      (classIn? known marker fragments name).toList := by
  have hone : ∀ other, (classIn? known marker fragments other).filter (·.fullName == name) =
      if other == name then classIn? known marker fragments other else none := by
    intro other
    cases hfound : classIn? known marker fragments other with
    | none => simp
    | some c => rw [Option.filter_some, (exists_of_classIn?_eq_some hfound).1]
  rw [classesIn, List.filter_filterMap]
  simp only [hone]
  rw [← List.filterMap_filter, List.filter_beq]
  by_cases hname : name ∈ classNames fragments
  · have hnodup : (classNames fragments).Nodup := nodup_eraseDups _
    rw [List.count_eq_one_of_mem hnodup hname, List.replicate_one, List.filterMap_cons]
    cases classIn? known marker fragments name <;> rfl
  · cases hfound : classIn? known marker fragments name with
    | none => simp [hfound]
    | some c => exact absurd (mem_classNames_of_classIn? hfound) hname

theorem nodup_fullNames (known : KnownTypes) (marker : Value) (fragments : List Fragment) :
    ((classesIn known marker fragments).map (·.fullName)).Nodup := by
  rw [classesIn, List.map_filterMap]
  refine List.Nodup.filterMap (fun name name' full hfull hfull' => ?_) (nodup_eraseDups _)
  obtain ⟨c, hc, rfl⟩ := Option.map_eq_some_iff.mp hfull
  obtain ⟨c', hc', heq⟩ := Option.map_eq_some_iff.mp hfull'
  rw [← (exists_of_classIn?_eq_some hc).1, ← (exists_of_classIn?_eq_some hc').1, heq]

/-! ## The fragments with echoes -/

/-- Each class of the fragments has an echo. -/
def IsEcho (echo : ReactiveClass → Fragment) (fragments : List Fragment) : Prop :=
  ∀ name first more properties, reportsOf name fragments = first :: more →
    Echoes (echo (classWith first more properties)) first more

section

variable {fragments : List Fragment} {echo : ReactiveClass → Fragment}

theorem IsEcho.fullName (h : IsEcho echo fragments) {c : ReactiveClass}
    (hc : c ∈ classesIn known marker fragments) : (echo c).fullName = c.fullName := by
  obtain ⟨-, first, more, properties, hreports, heq⟩ :=
    exists_of_classIn?_eq_some (mem_classesIn.mp hc)
  rw [heq, (h _ first more properties hreports).place.fullName]
  rfl

theorem IsEcho.map_fullName (h : IsEcho echo fragments) :
    ((classesIn known marker fragments).map echo).map Fragment.fullName =
      (classesIn known marker fragments).map (·.fullName) := by
  rw [List.map_map]
  exact List.map_congr_left fun c hc => h.fullName hc

theorem IsEcho.filter (h : IsEcho echo fragments) (name : String) :
    ((classesIn known marker fragments).map echo).filter (fun f => f.fullName == name) =
      ((classIn? known marker fragments name).map echo).toList := by
  have hsame : ∀ c ∈ classesIn known marker fragments,
      ((fun f => f.fullName == name) ∘ echo) c = (c.fullName == name) := by
    intro c hc
    rw [Function.comp, h.fullName hc]
  rw [List.filter_map, List.filter_congr hsame, filter_classesIn]
  cases classIn? known marker fragments name <;> rfl

/-- With the echoes behind the fragments, every name describes the same. -/
theorem IsEcho.describe_after (h : IsEcho echo fragments) (name : String) :
    describe known marker
        (reportsOf name (fragments ++ (classesIn known marker fragments).map echo)) =
      describe known marker (reportsOf name fragments) := by
  rw [reportsOf, List.filter_append, h.filter]
  cases hfound : classIn? known marker fragments name with
  | none =>
    rw [Option.map_none, Option.toList_none, List.append_nil]
    rfl
  | some c =>
    obtain ⟨-, first, more, properties, hreports, rfl⟩ := exists_of_classIn?_eq_some hfound
    rw [Option.map_some, Option.toList_some, eraseDupsBy_concat, ← reportsOf, hreports]
    split
    · rfl
    · exact describe_echo_after (h name first more properties hreports)

/-- With the echoes before the fragments, every name describes the same. -/
theorem IsEcho.describe_before (h : IsEcho echo fragments) (name : String) :
    describe known marker
        (reportsOf name ((classesIn known marker fragments).map echo ++ fragments)) =
      describe known marker (reportsOf name fragments) := by
  rw [reportsOf, List.filter_append, h.filter]
  cases hfound : classIn? known marker fragments name with
  | none => rfl
  | some c =>
    obtain ⟨-, first, more, properties, hreports, rfl⟩ := exists_of_classIn?_eq_some hfound
    have hsame : ∀ f g : Fragment, f.sameReport g = true →
        decide (f.sameReport (echo (classWith first more properties)) = false) =
          decide (g.sameReport (echo (classWith first more properties)) = false) := by
      intro f g hfg
      rw [sameReport_eq, beq_iff_eq] at hfg
      rw [sameReport_eq, sameReport_eq, hfg]
    rw [Option.map_some, Option.toList_some, List.singleton_append, List.eraseDupsBy_cons,
      eraseDupsBy_filter hsame, ← reportsOf, hreports]
    exact describe_echo_before (h name first more properties hreports)

/-- Echoes bring no new names. -/
theorem IsEcho.classNames_after (h : IsEcho echo fragments) :
    classNames (fragments ++ (classesIn known marker fragments).map echo) =
      classNames fragments := by
  have hold : ∀ name ∈ (classesIn known marker fragments).map (·.fullName),
      name ∈ fragments.map Fragment.fullName := by
    intro name hname
    obtain ⟨c, hc, rfl⟩ := List.mem_map.mp hname
    have hmem := mem_classNames_of_classIn? (mem_classesIn.mp hc)
    rwa [classNames, List.mem_eraseDups] at hmem
  have hinsert := eraseDups_insert [] hold
  rwa [List.append_nil, List.append_nil, ← h.map_fullName, ← List.map_append] at hinsert

/-- Before the fragments, echoes come in the order of the classes, and the other names have no
class. -/
theorem IsEcho.filterMap_classNames_before (h : IsEcho echo fragments) :
    (classNames ((classesIn known marker fragments).map echo ++ fragments)).filterMap
        (classIn? known marker fragments) = classesIn known marker fragments := by
  have hclasses : ((classesIn known marker fragments).map (·.fullName)).filterMap
      (classIn? known marker fragments) = classesIn known marker fragments := by
    rw [List.filterMap_map]
    exact (List.filterMap_congr fun c hc => mem_classesIn.mp hc).trans List.filterMap_some
  have hothers : ((fragments.map Fragment.fullName).removeAll
      ((classesIn known marker fragments).map (·.fullName))).eraseDups.filterMap
        (classIn? known marker fragments) = [] := by
    rw [List.filterMap_eq_nil_iff]
    intro name hname
    rw [List.mem_eraseDups, List.removeAll, List.mem_filter] at hname
    cases hfound : classIn? known marker fragments name with
    | none => rfl
    | some c =>
      have hfull := (exists_of_classIn?_eq_some hfound).1
      subst hfull
      have hmem := List.mem_map_of_mem (f := (·.fullName)) (mem_classesIn.mpr hfound)
      simp [hmem] at hname
  rw [classNames, List.map_append, h.map_fullName, List.eraseDups_append,
    eraseDups_of_nodup (nodup_fullNames known marker fragments), List.filterMap_append, hclasses,
    hothers, List.append_nil]

/-- With an echo of each class, wherever the echoes stand, a scan finds the same classes in the
same order. -/
theorem outcome_scan_echoes {settings : Settings} {classes : List ReactiveClass}
    (h : IsEcho echo fragments) (hscan : (scan settings known fragments).outcome = .ok classes) :
    (scan settings known (fragments ++ classes.map echo)).outcome = .ok classes ∧
      (scan settings known (classes.map echo ++ fragments)).outcome = .ok classes := by
  rw [outcome_scan_eq] at hscan
  rw [outcome_scan_eq, outcome_scan_eq]
  cases hresolve : known.resolve? settings.markerFullName with
  | error e =>
    rw [hresolve] at hscan
    cases hscan
  | ok found =>
    rw [hresolve] at hscan
    cases found with
    | none => exact ⟨hscan, hscan⟩
    | some marker =>
      have hturn : inTurn (describeIn known marker fragments) (classNames fragments) =
        .ok classes := hscan
      have hdescribe := describe_of_inTurn hturn
      obtain rfl : classesIn known marker fragments = classes :=
        Except.ok.inj ((inTurn_describeIn hdescribe).symm.trans hturn)
      constructor
      · have hall := fun name => (h.describe_after name).trans (hdescribe name)
        refine (inTurn_describeIn hall).trans ?_
        rw [h.classNames_after]
        rfl
      · have hall := fun name => (h.describe_before name).trans (hdescribe name)
        refine (inTurn_describeIn hall).trans ?_
        rw [h.filterMap_classNames_before]

end

end Backfield.Scan
