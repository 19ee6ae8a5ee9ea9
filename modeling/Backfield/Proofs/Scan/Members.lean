import Backfield.Proofs.Scan.Outcomes

/-!
# Members of a generated class

A generated class declares a property for each marked field, beside the fields that the class has
already.  Fields of one name get one property.  But the name of a property is made from that of
its field, and two fields can lead to one name.  This module says when they do.

* `propertyName_eq_iff` compares the property names of two fields, and `propertyName_eq_field_iff`
  a property name with the name of a field.
* `DeclaresEachOnce` says that no two members of a class have one name, `NamesApart` is the
  condition on the names of its fields.
* `declaresEachOnce_iff` is the result.  The condition holds if all fields are named as backing
  fields usually are.
-/

namespace Backfield

/-! ## Names that lead to one property name -/

/-- The one character is the capital of the other, an ASCII letter. -/
def IsCapitalOf (capital small : Char) : Prop :=
  'a' ≤ small ∧ small ≤ 'z' ∧ capital.toNat + 32 = small.toNat

/-- The names are equal, or differ in the case of their first letter alone. -/
inductive SameButFirstCase : List Char → List Char → Prop
  | same (name : List Char) : SameButFirstCase name name
  | capital {c d : Char} (h : IsCapitalOf c d) (rest : List Char) :
      SameButFirstCase (c :: rest) (d :: rest)
  | small {c d : Char} (h : IsCapitalOf c d) (rest : List Char) :
      SameButFirstCase (d :: rest) (c :: rest)

/-- The name begins with a small ASCII letter. -/
def BeginsSmall (name : List Char) : Prop := ∃ c ∈ name.head?, 'a' ≤ c ∧ c ≤ 'z'

theorem upperAscii_of_small {c : Char} (h : 'a' ≤ c ∧ c ≤ 'z') : IsCapitalOf (upperAscii c) c := by
  have hlow : 97 ≤ c.toNat := h.1
  have hhigh : c.toNat ≤ 122 := h.2
  have hvalid : (c.toNat - 32).isValidChar := Or.inl (by omega)
  refine ⟨h.1, h.2, ?_⟩
  have hcode : (Char.ofNat (c.toNat - 32)).toNat = c.toNat - 32 := by
    rw [Char.ofNat, dif_pos hvalid]
    rfl
  rw [upperAscii, if_pos (by simpa using h), hcode]
  omega

theorem upperAscii_of_not_small {c : Char} (h : ¬('a' ≤ c ∧ c ≤ 'z')) : upperAscii c = c := by
  rw [upperAscii, if_neg (by simpa using h)]

theorem not_small_of_isCapitalOf {c d : Char} (h : IsCapitalOf c d) : ¬('a' ≤ c ∧ c ≤ 'z') := by
  rintro ⟨hlow, -⟩
  have hlow' : 97 ≤ c.toNat := hlow
  have hhigh : d.toNat ≤ 122 := h.2.1
  have hcase := h.2.2
  omega

theorem upperAscii_of_isCapitalOf {c d : Char} (h : IsCapitalOf c d) :
    upperAscii c = c ∧ upperAscii d = c := by
  refine ⟨upperAscii_of_not_small (not_small_of_isCapitalOf h), ?_⟩
  have hcapital := upperAscii_of_small ⟨h.1, h.2.1⟩
  rw [← Char.toNat_inj]
  have hleft := hcapital.2.2
  have hright := h.2.2
  omega

theorem upperFirst_eq_of_not_beginsSmall {name : List Char} (h : ¬BeginsSmall name) :
    upperFirst name = name := by
  cases name with
  | nil => rfl
  | cons c rest =>
    rw [upperFirst, upperAscii_of_not_small fun hc => h ⟨c, rfl, hc⟩]

/-- Putting the first letter into upper case changes its case at most. -/
theorem sameButFirstCase_upperFirst (name : List Char) :
    SameButFirstCase (upperFirst name) name ∧ ¬BeginsSmall (upperFirst name) := by
  cases name with
  | nil =>
    refine ⟨SameButFirstCase.same [], ?_⟩
    rintro ⟨c, hc, -⟩
    cases hc
  | cons c rest =>
    by_cases hc : 'a' ≤ c ∧ c ≤ 'z'
    · have hcapital := upperAscii_of_small hc
      refine ⟨SameButFirstCase.capital hcapital rest, ?_⟩
      rintro ⟨d, hd, hsmall⟩
      cases hd
      exact not_small_of_isCapitalOf hcapital hsmall
    · rw [upperFirst, upperAscii_of_not_small hc]
      refine ⟨SameButFirstCase.same _, ?_⟩
      rintro ⟨d, hd, hsmall⟩
      cases hd
      exact hc hsmall

theorem upperFirst_eq_of_sameButFirstCase {name other : List Char}
    (h : SameButFirstCase name other) : upperFirst name = upperFirst other := by
  cases h with
  | same => rfl
  | capital hcase rest =>
    obtain ⟨hcapital, hsmall⟩ := upperAscii_of_isCapitalOf hcase
    rw [upperFirst, upperFirst, hcapital, hsmall]
  | small hcase rest =>
    obtain ⟨hcapital, hsmall⟩ := upperAscii_of_isCapitalOf hcase
    rw [upperFirst, upperFirst, hcapital, hsmall]

theorem upperFirst_eq_iff (name other : List Char) :
    upperFirst name = upperFirst other ↔ SameButFirstCase name other := by
  refine ⟨fun h => ?_, upperFirst_eq_of_sameButFirstCase⟩
  cases name with
  | nil =>
    cases other with
    | nil => exact SameButFirstCase.same []
    | cons d rest => cases h
  | cons c rest =>
    cases other with
    | nil => cases h
    | cons d rest' =>
      obtain ⟨hfirst, rfl⟩ := List.cons.inj h
      by_cases hc : 'a' ≤ c ∧ c ≤ 'z'
      · by_cases hd : 'a' ≤ d ∧ d ≤ 'z'
        · have hleft := (hfirst ▸ upperAscii_of_small hc).2.2
          have hright := (upperAscii_of_small hd).2.2
          have heq : c = d := Char.toNat_inj.mp (by omega)
          rw [heq]
          exact SameButFirstCase.same _
        · rw [upperAscii_of_not_small hd] at hfirst
          exact SameButFirstCase.small (hfirst ▸ upperAscii_of_small hc) rest
      · rw [upperAscii_of_not_small hc] at hfirst
        by_cases hd : 'a' ≤ d ∧ d ≤ 'z'
        · exact SameButFirstCase.capital (hfirst ▸ upperAscii_of_small hd) rest
        · rw [upperAscii_of_not_small hd] at hfirst
          rw [hfirst]
          exact SameButFirstCase.same _

/-- Names that both begin with a small letter do not differ in its case. -/
theorem eq_of_sameButFirstCase {name other : List Char} (h : SameButFirstCase name other)
    (hname : BeginsSmall name) (hother : BeginsSmall other) : name = other := by
  cases h with
  | same => rfl
  | capital hcase rest =>
    obtain ⟨c, hc, hsmall⟩ := hname
    cases hc
    exact absurd hsmall (not_small_of_isCapitalOf hcase)
  | small hcase rest =>
    obtain ⟨c, hc, hsmall⟩ := hother
    cases hc
    exact absurd hsmall (not_small_of_isCapitalOf hcase)

/-- The part of a field's name that its property is named after. -/
def stem (field : String) : List Char := dropFieldMark field.toList

/-- Two fields have one property name exactly when their stems are equal but for the case of the
first letter. -/
theorem propertyName_eq_iff (field other : String) :
    propertyName field = propertyName other ↔ SameButFirstCase (stem field) (stem other) := by
  rw [propertyName, propertyName, String.ofList_inj]
  exact upperFirst_eq_iff _ _

/-- The property of a field is named like another field exactly when the name of that field is the
stem with a capital in front. -/
theorem propertyName_eq_field_iff (field other : String) :
    propertyName field = other ↔
      SameButFirstCase (stem field) other.toList ∧ ¬BeginsSmall other.toList := by
  rw [propertyName, ← String.toList_inj, String.toList_ofList]
  constructor
  · intro h
    obtain ⟨-, hcapital⟩ := sameButFirstCase_upperFirst (stem field)
    have hother : upperFirst (stem field) = other.toList := h
    rw [hother] at hcapital
    refine ⟨(upperFirst_eq_iff _ _).mp ?_, hcapital⟩
    rw [hother, upperFirst_eq_of_not_beginsSmall hcapital]
  · rintro ⟨hsame, hcapital⟩
    have hupper : upperFirst (stem field) = upperFirst other.toList :=
      (upperFirst_eq_iff _ _).mpr hsame
    rwa [upperFirst_eq_of_not_beginsSmall hcapital] at hupper

namespace Scan

variable {known : KnownTypes} {marker : Value}

/-! ## The properties of a class -/

/-- What the loop over the fields keeps: no two properties are for fields of one name, none is
for a name that has been seen, and each has passed the checks on its field. -/
theorem properties_of_propertiesFrom {className : String} {accessibility : Accessibility}
    {seen : List String} {entries : List (Fragment × Field)} {properties : List Property}
    (h : (propertiesFrom known marker className accessibility seen entries).outcome =
      .ok properties) :
    (properties.map Property.field).Nodup ∧ ∀ p ∈ properties, p.field ∉ seen ∧
      ∃ entry ∈ entries, hasType entry.2 = true ∧ isRenamed entry.2 = true ∧
        p = propertyOf accessibility entry.2 := by
  induction entries generalizing seen properties with
  | nil =>
    cases h
    exact ⟨List.nodup_nil, fun p hp => absurd hp List.not_mem_nil⟩
  | cons entry rest ih =>
    have hmore : ∀ {seen : List String} {properties : List Property},
        (propertiesFrom known marker className accessibility seen rest).outcome = .ok properties →
        (properties.map Property.field).Nodup ∧ ∀ p ∈ properties, p.field ∉ seen ∧
          ∃ found ∈ entry :: rest, hasType found.2 = true ∧ isRenamed found.2 = true ∧
            p = propertyOf accessibility found.2 := by
      intro seen properties h
      obtain ⟨hnodup, hall⟩ := ih h
      refine ⟨hnodup, fun p hp => ?_⟩
      obtain ⟨hseen, found, hfound, hentry⟩ := hall p hp
      exact ⟨hseen, found, List.mem_cons_of_mem _ hfound, hentry⟩
    rw [outcome_propertiesFrom_cons] at h
    split at h
    · exact hmore h
    · rename_i hnew
      obtain ⟨found, hdecision, hstep⟩ := exists_of_bind_eq_ok h
      cases found with
      | none => exact hmore hstep
      | some p =>
        obtain ⟨others, hrest, rfl⟩ := exists_of_map_eq_ok hstep
        obtain ⟨hnodup, hall⟩ := hmore hrest
        obtain ⟨-, htype, hrenamed, rfl⟩ := decision_eq_some hdecision
        refine ⟨?_, fun p hp => ?_⟩
        · rw [List.map_cons, List.nodup_cons]
          refine ⟨fun hmem => ?_, hnodup⟩
          obtain ⟨q, hq, hfield⟩ := List.mem_map.mp hmem
          exact (hall q hq).1 (hfield ▸ List.mem_cons_self)
        · rcases List.mem_cons.mp hp with rfl | hp
          · exact ⟨hnew, entry, List.mem_cons_self, htype, hrenamed, rfl⟩
          · obtain ⟨hseen, hentry⟩ := hall p hp
            exact ⟨fun hmem => hseen (List.mem_cons_of_mem _ hmem), hentry⟩

/-- The fields that the fragments of one full name declare. -/
def declaredFields (fragments : List Fragment) (fullName : String) : List Field :=
  (fragments.filter fun f => f.fullName == fullName).flatMap fun f => f.fields

/-- What is known of a class that a scan returns. -/
structure HasFields (fragments : List Fragment) (c : ReactiveClass) : Prop where
  distinct : (c.properties.map Property.field).Nodup
  declared : ∀ p ∈ c.properties, ∃ field ∈ declaredFields fragments c.fullName, p.field = field.name
  name : ∀ p ∈ c.properties, p.name = propertyName p.field
  renamed : ∀ p ∈ c.properties, p.name = p.field → p.field.length = 1

theorem length_of_isRenamed {field : Field} (hrenamed : isRenamed field = true)
    (h : propertyName field.name = field.name) : field.name.length = 1 := by
  rw [isRenamed, h] at hrenamed
  simpa using hrenamed

/-- A class that is described has properties, one for a field name, each of a field that a fragment
of its full name declares. -/
theorem properties_of_describe {fragments : List Fragment} {name : String} {c : ReactiveClass}
    (h : describe known marker (reportsOf name fragments) = .ok (some c)) :
    c.properties ≠ [] ∧ (c.properties.map Property.field).Nodup ∧ ∀ p ∈ c.properties,
      ∃ f ∈ fragments, f.fullName = c.fullName ∧ ∃ field ∈ f.fields,
        hasType field = true ∧ isRenamed field = true ∧ p = propertyOf c.accessibility field := by
  cases hreports : reportsOf name fragments with
  | nil =>
    rw [hreports] at h
    cases h
  | cons first more =>
    rw [hreports, describe, outcome_classOf?_eq] at h
    obtain ⟨properties, hloop, hfound⟩ := exists_of_map_eq_ok h
    split at hfound
    · cases hfound
    · rename_i hne
      cases hfound
      obtain ⟨hnodup, hall⟩ := properties_of_propertiesFrom hloop
      have hfirst : first.fullName = name := (mem_reportsOf (hreports ▸ List.mem_cons_self)).2
      refine ⟨hne, hnodup, fun p hp => ?_⟩
      obtain ⟨-, entry, hentry, htype, hrenamed, rfl⟩ := hall p hp
      obtain ⟨f, (hf : f ∈ first :: more), hentry⟩ := List.mem_flatMap.mp hentry
      obtain ⟨field, hfield, rfl⟩ := List.mem_map.mp hentry
      obtain ⟨hmem, hfname⟩ := mem_reportsOf (hreports ▸ hf)
      exact ⟨f, hmem, hfname.trans hfirst.symm, field, hfield, htype, hrenamed, rfl⟩

theorem hasFields_of_describe {fragments : List Fragment} {name : String} {c : ReactiveClass}
    (h : describe known marker (reportsOf name fragments) = .ok (some c)) :
    HasFields fragments c := by
  obtain ⟨-, hnodup, hall⟩ := properties_of_describe h
  refine ⟨hnodup, fun p hp => ?_, fun p hp => ?_, fun p hp hsame => ?_⟩
  · obtain ⟨f, hf, hname, field, hfield, -, -, rfl⟩ := hall p hp
    refine ⟨field, List.mem_flatMap.mpr ⟨f, List.mem_filter.mpr ⟨hf, ?_⟩, hfield⟩, rfl⟩
    simpa using hname
  · obtain ⟨f, -, -, field, -, -, -, rfl⟩ := hall p hp
    rfl
  · obtain ⟨f, -, -, field, -, -, hrenamed, rfl⟩ := hall p hp
    exact length_of_isRenamed hrenamed hsame

theorem hasFields_of_scan {settings : Settings} {fragments : List Fragment}
    {classes : List ReactiveClass} {c : ReactiveClass}
    (hscan : (scan settings known fragments).outcome = .ok classes) (hc : c ∈ classes) :
    HasFields fragments c := by
  obtain ⟨marker, name, hdescribe⟩ := exists_describe_of_mem hscan hc
  exact hasFields_of_describe hdescribe

/-! ## Members of one name -/

/-- The properties of the class have different names, and none has the name of a field that the
class declares, except that a field of one character may share it with its own property. -/
structure DeclaresEachOnce (fragments : List Fragment) (c : ReactiveClass) : Prop where
  properties : (c.properties.map Property.name).Nodup
  fields : ∀ p ∈ c.properties, ∀ field ∈ declaredFields fragments c.fullName,
    p.name = field.name → field.name = p.field ∧ p.field.length = 1

/-- No two fields with a property have one stem but for the case of its first letter, and no other
field is named like the stem of one with a capital in front. -/
structure NamesApart (fragments : List Fragment) (c : ReactiveClass) : Prop where
  properties : ∀ p ∈ c.properties, ∀ q ∈ c.properties, p.field ≠ q.field →
    ¬SameButFirstCase (stem p.field) (stem q.field)
  fields : ∀ p ∈ c.properties, ∀ field ∈ declaredFields fragments c.fullName,
    field.name ≠ p.field →
      ¬(SameButFirstCase (stem p.field) field.name.toList ∧ ¬BeginsSmall field.name.toList)

theorem declaresEachOnce_of_namesApart {fragments : List Fragment} {c : ReactiveClass}
    (hc : HasFields fragments c) (h : NamesApart fragments c) : DeclaresEachOnce fragments c where
  properties := by
    have hdistinct : c.properties.Pairwise fun p q => p.field ≠ q.field :=
      List.pairwise_map.mp hc.distinct
    refine List.pairwise_map.mpr (hdistinct.imp_of_mem fun {p q} hp hq hfield hname => ?_)
    rw [hc.name p hp, hc.name q hq, propertyName_eq_iff] at hname
    exact h.properties p hp q hq hfield hname
  fields := by
    intro p hp field hfield hname
    have hown : field.name = p.field := by
      by_contra hother
      rw [hc.name p hp, propertyName_eq_field_iff] at hname
      exact h.fields p hp field hfield hother hname
    exact ⟨hown, hc.renamed p hp (hname.trans hown)⟩

theorem namesApart_of_declaresEachOnce {fragments : List Fragment} {c : ReactiveClass}
    (hc : HasFields fragments c) (h : DeclaresEachOnce fragments c) : NamesApart fragments c where
  properties := by
    intro p hp q hq hfield hsame
    have hname : p.name = q.name := by
      rw [hc.name p hp, hc.name q hq, propertyName_eq_iff]
      exact hsame
    exact hfield (congrArg Property.field (List.inj_on_of_nodup_map h.properties hp hq hname))
  fields := by
    intro p hp field hfield hother hsame
    have hname : p.name = field.name := by
      rw [hc.name p hp, propertyName_eq_field_iff]
      exact hsame
    exact hother (h.fields p hp field hfield hname).1

/-! ## Usual names -/

/-- A field named as a backing field usually is: the mark, then a small letter. -/
def IsUsual (field : String) : Prop :=
  ∃ name, field.toList = fieldMark :: name ∧ BeginsSmall name

theorem stem_of_isUsual {field : String} (h : IsUsual field) :
    field.toList = fieldMark :: stem field ∧ BeginsSmall (stem field) := by
  obtain ⟨name, hfield, hsmall⟩ := h
  have hstem : stem field = name := by
    obtain ⟨c, hc, -⟩ := hsmall
    rw [stem, hfield]
    cases name with
    | nil => cases hc
    | cons d rest => simp [dropFieldMark]
  rw [hstem]
  exact ⟨hfield, hsmall⟩

/-- What begins with the mark is not a name with a small letter in front, whatever its case. -/
theorem not_sameButFirstCase_mark {name rest : List Char} (hname : BeginsSmall name) :
    ¬SameButFirstCase name (fieldMark :: rest) := by
  rintro (_ | hcase | hcase)
  · obtain ⟨c, hc, hsmall⟩ := hname
    cases hc
    exact absurd hsmall (by decide)
  · exact absurd ⟨hcase.1, hcase.2.1⟩ (by decide : ¬('a' ≤ fieldMark ∧ fieldMark ≤ 'z'))
  · have hcode : fieldMark.toNat + 32 ≤ 'z'.toNat := hcase.2.2 ▸ hcase.2.1
    exact absurd hcode (by decide)

theorem namesApart_of_isUsual {fragments : List Fragment} {c : ReactiveClass}
    (hc : HasFields fragments c)
    (husual : ∀ field ∈ declaredFields fragments c.fullName, IsUsual field.name) :
    NamesApart fragments c := by
  have hproperty : ∀ p ∈ c.properties, IsUsual p.field := by
    intro p hp
    obtain ⟨field, hfield, hname⟩ := hc.declared p hp
    exact hname ▸ husual field hfield
  refine ⟨fun p hp q hq hfield hsame => ?_, fun p hp field hfield _ hsame => ?_⟩
  · obtain ⟨hpmark, hpsmall⟩ := stem_of_isUsual (hproperty p hp)
    obtain ⟨hqmark, hqsmall⟩ := stem_of_isUsual (hproperty q hq)
    have hstems := eq_of_sameButFirstCase hsame hpsmall hqsmall
    exact hfield (String.toList_inj.mp (by rw [hpmark, hqmark, hstems]))
  · obtain ⟨hmark, -⟩ := stem_of_isUsual (husual field hfield)
    obtain ⟨-, hpsmall⟩ := stem_of_isUsual (hproperty p hp)
    exact not_sameButFirstCase_mark hpsmall (hmark ▸ hsame.1)

/-! ## The result -/

/-- A class that a scan returns has one property for a field name, and none has the name of its
own field unless that is one character.  No two members of the class have one name exactly when
the names of its fields are apart, which they are if every field is named in the usual way. -/
theorem declaresEachOnce_iff (settings : Settings) (known : KnownTypes) (fragments : List Fragment)
    {classes : List ReactiveClass} {c : ReactiveClass}
    (hscan : (scan settings known fragments).outcome = .ok classes) (hc : c ∈ classes) :
    (c.properties.map Property.field).Nodup ∧
    (∀ p ∈ c.properties, p.name = p.field → p.field.length = 1) ∧
    (DeclaresEachOnce fragments c ↔ NamesApart fragments c) ∧
    ((∀ field ∈ declaredFields fragments c.fullName, IsUsual field.name) →
      DeclaresEachOnce fragments c) := by
  have hfields := hasFields_of_scan hscan hc
  refine ⟨hfields.distinct, hfields.renamed, ?_, fun husual => ?_⟩
  · exact ⟨namesApart_of_declaresEachOnce hfields, declaresEachOnce_of_namesApart hfields⟩
  · exact declaresEachOnce_of_namesApart hfields (namesApart_of_isUsual hfields husual)

/-- Two fragments of a class whose fields are named in the usual way.  Both declare a marked field
of one name. -/
theorem declaresEachOnce_iff_usual :
    let mark := "ReactiveObject.Generators.ReactiveProperty"
    let first : Fragment := {
      name := "Car"
      fields := [⟨"_speed", some "int", [mark]⟩, ⟨"_owner", some "string", []⟩] }
    let second : Fragment := {
      name := "Car"
      fields := [⟨"_speed", some "long", [mark]⟩, ⟨"_wheels", some "int", [mark]⟩] }
    let known := KnownTypes.ofNames ["ReactiveObject.Generators.ReactivePropertyAttribute"]
    let car : ReactiveClass := {
      name := "Car"
      space := ""
      fullName := "Car"
      accessibility := .isInternal
      properties := [
        ⟨"_speed", "Speed", .isInternal, "int"⟩, ⟨"_wheels", "Wheels", .isInternal, "int"⟩] }
    (scan {} known [first, second]).outcome = .ok [car] ∧ car ∈ [car] ∧
      DeclaresEachOnce [first, second] car := by
  intro mark first second known car
  have hscan : (scan {} known [first, second]).outcome = .ok [car] := by decide +kernel
  have hcar : car ∈ [car] := List.mem_singleton_self car
  refine ⟨hscan, hcar, (declaresEachOnce_iff {} known [first, second] hscan hcar).2.2.2 ?_⟩
  have hnames : (declaredFields [first, second] car.fullName).map Field.name =
      ["_speed", "_owner", "_speed", "_wheels"] := by decide +kernel
  intro field hfield
  have hname : field.name ∈ ["_speed", "_owner", "_speed", "_wheels"] :=
    hnames ▸ List.mem_map_of_mem hfield
  simp only [List.mem_cons, List.not_mem_nil, or_false] at hname
  rcases hname with h | h | h | h
  all_goals
    rw [h]
    exact ⟨_, rfl, _, rfl, by decide⟩

/-- Two marked fields that differ in the mark alone, and a field named like their property. -/
def clashingFields : Fragment where
  name := "Car"
  fields := [
    ⟨"_speed", some "int", ["ReactiveObject.Generators.ReactiveProperty"]⟩,
    ⟨"speed", some "int", ["ReactiveObject.Generators.ReactiveProperty"]⟩,
    ⟨"Speed", some "int", []⟩]

/-- The class gets two properties of one name, which is the name of a third field too. -/
theorem scan_clashingFields :
    ∃ c, (scan {} (KnownTypes.ofNames ["ReactiveObject.Generators.ReactivePropertyAttribute"])
        [clashingFields]).outcome = .ok [c] ∧
      c.properties.map Property.name = ["Speed", "Speed"] ∧
      ¬DeclaresEachOnce [clashingFields] c := by
  let car : ReactiveClass := {
    name := "Car"
    space := ""
    fullName := "Car"
    accessibility := .isInternal
    properties := [
      ⟨"_speed", "Speed", .isInternal, "int"⟩, ⟨"speed", "Speed", .isInternal, "int"⟩] }
  refine ⟨car, by decide +kernel, rfl, fun h => ?_⟩
  exact absurd h.properties (by decide)

end Scan

end Backfield
