import Backfield.Proofs.Text.Blank
import Backfield.Scan

/-!
# Which fields get a property

The scan decides about one field at a time and remembers the names of the fields that have a
property.  This module gives the outcome of each step without the trace.

* `outcome_property?` is the decision about one field: it fails only for a marked field of a
  known type that has no name.
* `outcome_propertiesFrom` is the loop over the fields of a class that all have names: what is
  left are the selected fields, each name once.
-/

namespace Backfield.Scan

variable {known : KnownTypes} {marker className : String} {accessibility : Accessibility}
variable {fragment : Fragment} {field : Field}

/-! ## The three conditions on a field -/

/-- How many attributes of a field bind to the marker in the scope of a fragment. -/
def marksOf (known : KnownTypes) (marker : String) (fragment : Fragment) (field : Field) : Nat :=
  field.attributes.countP fun written =>
    Binding.bindAttribute? known fragment written == some marker

/-- The type of the field has been read and is not blank. -/
def hasType (field : Field) : Bool := field.typeText.any Text.hasInk

/-- The property has a name of its own, or a name of one character. -/
def isRenamed (field : Field) : Bool :=
  propertyName field.name != field.name || (propertyName field.name).length == 1

/-- The property of a field that gets one. -/
def propertyOf (accessibility : Accessibility) (field : Field) : Property :=
  ⟨field.name, propertyName field.name, accessibility,
    Text.collapse (field.typeText.getD "")⟩

/-! ## Names -/

theorem upperFirst_ne_nil {name : List Char} (h : name ≠ []) : upperFirst name ≠ [] := by
  cases name with
  | nil => exact absurd rfl h
  | cons c rest => simp [upperFirst]

theorem dropFieldMark_ne_nil {name : List Char} (h : name ≠ []) : dropFieldMark name ≠ [] := by
  rcases name with _ | ⟨c, _ | ⟨d, rest⟩⟩
  · exact absurd rfl h
  · simp [dropFieldMark]
  · rw [dropFieldMark]
    split <;> simp

/-- A field with a name has a property name. -/
theorem propertyName_ne_empty {name : String} (h : name ≠ "") : propertyName name ≠ "" := by
  rw [propertyName, Ne, String.ofList_eq_empty_iff]
  refine upperFirst_ne_nil (dropFieldMark_ne_nil ?_)
  rwa [Ne, String.toList_eq_nil_iff]

/-- A name that is too short to clash has one character. -/
theorem isRenamed_eq_false_iff (h : field.name ≠ "") :
    isRenamed field = false ↔
      propertyName field.name = field.name ∧ 1 < (propertyName field.name).length := by
  have hpositive : (propertyName field.name).length ≠ 0 := by
    rw [Ne, String.length_eq_zero_iff]
    exact propertyName_ne_empty h
  simp only [isRenamed, Bool.or_eq_false_iff, bne_eq_false_iff_eq, beq_eq_false_iff_ne]
  constructor
  · rintro ⟨heq, hlength⟩
    exact ⟨heq, by omega⟩
  · rintro ⟨heq, hlength⟩
    exact ⟨heq, by omega⟩

/-! ## One field -/

@[simp] theorem outcome_bindAttribute (written : String) :
    (Binding.bindAttribute known fragment written).outcome =
      .ok (Binding.bindAttribute? known fragment written) := by
  rw [Binding.bindAttribute]
  split <;> rfl

theorem outcome_countMarks (attributes : List String) :
    (countMarks known fragment (.text marker) attributes).outcome =
      .ok (attributes.countP fun written =>
        Binding.bindAttribute? known fragment written == some marker) := by
  induction attributes with
  | nil => rfl
  | cons written rest ih =>
    simp only [countMarks, Traced.outcome_bind, outcome_bindAttribute, ih, Traced.outcome_pure,
      Except.bind]
    cases hbound : Binding.bindAttribute? known fragment written with
    | none => simp [hbound]
    | some bound =>
      by_cases heq : bound = marker <;>
        simp [hbound, heq, Nat.add_comm]

theorem outcome_isMarked :
    (isMarked known fragment (.text marker) field).outcome =
      .ok (marksOf known marker fragment field == 1) := by
  simp only [isMarked, Traced.outcome_bind, outcome_countMarks, Except.bind]
  split <;> rfl

theorem outcome_nameProperty :
    (nameProperty className field).outcome =
      if field.name = "" then .error .emptyFieldName
      else .ok (if isRenamed field then some (propertyName field.name) else none) := by
  rw [nameProperty]
  by_cases hname : field.name = ""
  · simp [hname]
  · rw [if_neg (by simpa using hname), if_neg hname]
    cases hrenamed : isRenamed field with
    | false =>
      obtain ⟨heq, hlength⟩ := (isRenamed_eq_false_iff hname).mp hrenamed
      simp [heq, heq ▸ hlength, Except.bind]
    | true =>
      have hclear :
          ¬(propertyName field.name = field.name ∧ 1 < (propertyName field.name).length) := by
        rw [← isRenamed_eq_false_iff hname, hrenamed]
        simp
      rw [if_neg (by simpa using hclear)]
      rfl

/-- The type text of a field that has a type is that text on one line. -/
theorem fieldType?_eq :
    Binding.fieldType? field.typeText =
      if hasType field then some (Text.collapse (field.typeText.getD "")) else none := by
  cases htext : field.typeText with
  | none => simp [Binding.fieldType?, hasType, htext]
  | some text =>
    cases hink : Text.hasInk text with
    | false =>
      have hempty := (Text.collapse_eq_empty_iff text).mpr hink
      simp [Binding.fieldType?, hasType, htext, hink, hempty]
    | true =>
      have hfull : Text.collapse text ≠ "" := by
        rw [Ne, Text.collapse_eq_empty_iff, hink]
        simp
      simp [Binding.fieldType?, hasType, htext, hink, hfull]

theorem check_eq_ok {p : Property} (hfield : p.field ≠ "") (hname : p.name ≠ "")
    (hclear : ¬(p.name = p.field ∧ 1 < p.field.length)) : Property.check p = .ok p := by
  have hnamed : ¬(p.field == "" || p.name == "") = true := by simp [hfield, hname]
  have hclear' : ¬(p.name == p.field && decide (1 < p.field.length)) = true := by
    simpa only [Bool.and_eq_true, beq_iff_eq, decide_eq_true_eq] using hclear
  rw [Property.check, if_neg hnamed, if_neg hclear']

/-- The property of a renamed field passes the check of its parts. -/
theorem check_propertyOf (accessibility : Accessibility) (hname : field.name ≠ "")
    (hrenamed : isRenamed field = true) :
    Property.check (propertyOf accessibility field) = .ok (propertyOf accessibility field) := by
  refine check_eq_ok hname (propertyName_ne_empty hname) ?_
  rintro ⟨heq, hlength⟩
  have heq' : propertyName field.name = field.name := heq
  have hfalse := (isRenamed_eq_false_iff hname).mpr ⟨heq', by rw [heq']; exact hlength⟩
  rw [hfalse] at hrenamed
  exact Bool.false_ne_true hrenamed

/-- The decision about one field, whatever says whether it is marked. -/
theorem outcome_property?_of_isMarked {mark : Value} {marked : Bool}
    (hmarked : (isMarked known fragment mark field).outcome = .ok marked) :
    (property? known mark className accessibility fragment field).outcome =
      if marked && hasType field then
        if field.name = "" then .error .emptyFieldName
        else .ok (if isRenamed field then some (propertyOf accessibility field) else none)
      else .ok none := by
  rw [property?, Traced.outcome_bind, hmarked]
  simp only [Except.bind]
  cases marked with
  | false => rfl
  | true =>
    rw [fieldType?_eq]
    cases htype : hasType field with
    | false => rfl
    | true =>
      simp only [Bool.not_true, Bool.false_eq_true, ↓reduceIte, Bool.and_self,
        Traced.outcome_bind, outcome_nameProperty]
      by_cases hname : field.name = ""
      · simp [hname, Except.bind]
      · cases hrenamed : isRenamed field with
        | false => simp [hname, Except.bind]
        | true =>
          have hcheck := check_propertyOf accessibility hname hrenamed
          rw [propertyOf] at hcheck
          simp only [hname, ↓reduceIte, Except.bind, Traced.outcome_bind, Traced.outcome_lift,
            hcheck]
          rfl

/-- The decision about one field. -/
theorem outcome_property? :
    (property? known (.text marker) className accessibility fragment field).outcome =
      if marksOf known marker fragment field == 1 && hasType field then
        if field.name = "" then .error .emptyFieldName
        else .ok (if isRenamed field then some (propertyOf accessibility field) else none)
      else .ok none :=
  outcome_property?_of_isMarked outcome_isMarked

/-! ## All fields of a class -/

/-- The field of a fragment gets a property if no other field of its name does. -/
def isSelected (known : KnownTypes) (marker : String) (entry : Fragment × Field) : Bool :=
  marksOf known marker entry.1 entry.2 == 1 && hasType entry.2 && isRenamed entry.2

/-- Two fields of one name, each beside its fragment. -/
def sameName (later earlier : Fragment × Field) : Bool := later.2.name == earlier.2.name

theorem outcome_property?_of_name (hname : field.name ≠ "") :
    (property? known (.text marker) className accessibility fragment field).outcome =
      .ok (if isSelected known marker (fragment, field) then
        some (propertyOf accessibility field) else none) := by
  rw [outcome_property?, if_neg hname, isSelected]
  cases (marksOf known marker fragment field == 1 && hasType field) <;> rfl

/-- What the loop leaves of the fields: the selected ones with a name that has not been seen,
each name once.  A field that is passed over does not count as seen. -/
theorem outcome_propertiesFrom (seen : List String) (entries : List (Fragment × Field))
    (hnames : ∀ entry ∈ entries, entry.2.name ≠ "") :
    (propertiesFrom known (.text marker) className accessibility seen entries).outcome =
      .ok ((((entries.filter (isSelected known marker)).filter fun entry =>
        entry.2.name ∉ seen).eraseDupsBy sameName).map fun entry =>
          propertyOf accessibility entry.2) := by
  induction entries generalizing seen with
  | nil => rfl
  | cons entry rest ih =>
    obtain ⟨fragment, field⟩ := entry
    have hrest : ∀ entry ∈ rest, entry.2.name ≠ "" := fun entry hentry =>
      hnames entry (List.mem_cons_of_mem _ hentry)
    have hname : field.name ≠ "" := hnames (fragment, field) List.mem_cons_self
    rw [propertiesFrom]
    by_cases hseen : field.name ∈ seen
    · rw [if_pos hseen, ih seen hrest]
      by_cases hselected : isSelected known marker (fragment, field) = true
      · rw [List.filter_cons_of_pos hselected, List.filter_cons_of_neg (by simpa using hseen)]
      · rw [List.filter_cons_of_neg hselected]
    · rw [if_neg hseen, Traced.outcome_bind, outcome_property?_of_name hname]
      by_cases hselected : isSelected known marker (fragment, field) = true
      · have hsplit : ∀ entries : List (Fragment × Field),
            (entries.filter fun entry => entry.2.name ∉ field.name :: seen) =
              (entries.filter fun entry => entry.2.name ∉ seen).filter fun entry =>
                sameName entry (fragment, field) = false := by
          intro entries
          rw [List.filter_filter]
          refine List.filter_congr fun entry _ => ?_
          simp [sameName, not_or]
        simp only [if_pos hselected, Except.bind, Traced.outcome_bind, ih _ hrest]
        rw [List.filter_cons_of_pos hselected, List.filter_cons_of_pos (by simpa using hseen),
          List.eraseDupsBy_cons, hsplit]
        rfl
      · simp only [if_neg hselected, Except.bind, ih _ hrest]
        rw [List.filter_cons_of_neg hselected]

end Backfield.Scan
