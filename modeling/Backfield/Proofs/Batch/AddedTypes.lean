import Backfield.Proofs.Batch.Artifacts
import Backfield.Proofs.Binding.Meanings

/-!
# Types that become known

One more known type can take attributes away from the marker, where it comes first in the order
in which names are bound, and gives none to it.  So it may leave a field without its property.  A
field can get one only if it has carried the marker more than once.

* `isSelected_of_addName` says so of one field.
* `describes_iff` tells which fields the described classes have properties for, whatever their
  order.
* `describes_of_addName` is the result for two scans.
-/

namespace Backfield

namespace Scan

variable {known : KnownTypes} {marker : String}

/-! ## One field -/

/-- One more known type takes marks away and gives none. -/
theorem marksOf_addName_le (known : KnownTypes) {added : String} (hother : added ≠ marker)
    (fragment : Fragment) (field : Field) :
    marksOf (known.addName added) marker fragment field ≤ marksOf known marker fragment field := by
  refine List.countP_mono_left fun written _ hbound => ?_
  rcases Binding.bindAttribute?_addName known added fragment written with hsame | hadded
  · rw [hsame] at hbound
    exact hbound
  · rw [hadded, beq_iff_eq, Option.some.injEq] at hbound
    exact absurd hbound hother

/-- A field that does not carry the marker twice is selected only if it has been before. -/
theorem isSelected_of_addName {added : String} (hother : added ≠ marker)
    {entry : Fragment × Field} (honce : marksOf known marker entry.1 entry.2 ≤ 1)
    (hselected : isSelected (known.addName added) marker entry = true) :
    isSelected known marker entry = true := by
  have hfewer := marksOf_addName_le known hother entry.1 entry.2
  simp only [isSelected, Bool.and_eq_true, beq_iff_eq] at hselected ⊢
  obtain ⟨⟨hmarks, htype⟩, hrenamed⟩ := hselected
  exact ⟨⟨by omega, htype⟩, hrenamed⟩

/-! ## Fields with a property -/

/-- One of the classes is that of the full name, and it has a property for the field. -/
def Describes (classes : List ReactiveClass) (type field : String) : Prop :=
  ∃ c ∈ classes, c.fullName = type ∧ ∃ p ∈ c.properties, p.field = field

/-- The described classes have a property for each name of a selected field. -/
theorem describes_iff {fragments : List Fragment} {type name : String} :
    Describes (describedClasses known marker fragments) type name ↔
      ∃ f ∈ reportsOf type fragments, ∃ field ∈ f.fields,
        isSelected known marker (f, field) = true ∧ field.name = name := by
  constructor
  · rintro ⟨c, hc, rfl, p, hp, rfl⟩
    obtain ⟨type, -, hclass⟩ := List.mem_filterMap.mp hc
    obtain ⟨report, hreport, hof⟩ := Batch.isClassOf_classOfReports? hclass
    rw [properties_of_classOfReports? hclass] at hp
    obtain ⟨entry, hentry, rfl⟩ := List.mem_map.mp hp
    obtain ⟨hmem, hselected⟩ := List.mem_filter.mp (mem_of_mem_eraseDupsBy hentry)
    obtain ⟨f, hf, hmem⟩ := List.mem_flatMap.mp hmem
    obtain ⟨field, hfield, rfl⟩ := List.mem_map.mp hmem
    rw [hof.fullName, (mem_reportsOf hreport).2]
    exact ⟨f, hf, field, hfield, hselected, rfl⟩
  · rintro ⟨f, hf, field, hfield, hselected, rfl⟩
    obtain ⟨entry, hentry, hsame⟩ := exists_selectedFields hf hfield hselected
    obtain ⟨c, hclass⟩ := exists_classOfReports? (List.ne_nil_of_mem hentry)
    obtain ⟨report, hreport, hof⟩ := Batch.isClassOf_classOfReports? hclass
    have htype : type ∈ classNames fragments := by
      rw [classNames, List.mem_eraseDups, ← (mem_reportsOf hf).2]
      exact List.mem_map_of_mem (mem_reportsOf hf).1
    refine ⟨c, List.mem_filterMap.mpr ⟨type, htype, hclass⟩, ?_, ?_⟩
    · rw [hof.fullName, (mem_reportsOf hreport).2]
    · rw [properties_of_classOfReports? hclass]
      exact ⟨_, List.mem_map_of_mem hentry, hsame⟩

/-! ## Two scans -/

/-- Once another type than the marker becomes known, an attribute means what it has meant or that
type, and a scan describes no field that it has not described before, if no field has carried the
marker more than once. -/
theorem describes_of_addName (settings : Settings) (known : KnownTypes) (fragments : List Fragment)
    {marker added : String} (hmarker : settings.markerFullName = .text marker)
    (hknown : marker ∈ known.names) (hother : added ≠ marker)
    (hfields : ∀ f ∈ fragments, ∀ field ∈ f.fields, field.name ≠ "")
    (honce : ∀ f ∈ fragments, ∀ field ∈ f.fields, marksOf known marker f field ≤ 1) :
    (∀ f written, Binding.bindAttribute? (known.addName added) f written =
        Binding.bindAttribute? known f written ∨
      Binding.bindAttribute? (known.addName added) f written = some added) ∧
    ∃ before after, (scan settings known fragments).outcome = .ok before ∧
      (scan settings (known.addName added) fragments).outcome = .ok after ∧
      ∀ type field, Describes after type field → Describes before type field := by
  refine ⟨Binding.bindAttribute?_addName known added, _, _, Batch.outcome_scan hmarker hfields,
    Batch.outcome_scan hmarker hfields, fun type name hdescribes => ?_⟩
  have hstill : marker ∈ (known.addName added).names := KnownTypes.mem_addName.mpr (Or.inl hknown)
  rw [Batch.scannedClasses, if_pos hstill, describes_iff] at hdescribes
  rw [Batch.scannedClasses, if_pos hknown, describes_iff]
  obtain ⟨f, hf, field, hfield, hselected, hname⟩ := hdescribes
  have honce' := honce f (mem_reportsOf hf).1 field hfield
  exact ⟨f, hf, field, hfield, isSelected_of_addName hother honce' hselected, hname⟩

/-- An attribute of the class's own namespace hides the marker from its short name.  One field
keeps its property, since another fragment marks it by the full name, and the other loses it. -/
theorem describes_of_addName_hidden :
    let marker := "ReactiveObject.Generators.ReactivePropertyAttribute"
    let added := "Shop.ReactivePropertyAttribute"
    let first : Fragment := {
      name := "Car"
      space := "Shop"
      fields := [
        ⟨"_speed", some "int", ["ReactiveProperty"]⟩,
        ⟨"_owner", some "string", ["ReactiveProperty"]⟩]
      usings := ["ReactiveObject.Generators"] }
    let second : Fragment := {
      name := "Car"
      space := "Shop"
      fields := [⟨"_owner", some "string", ["global::" ++ marker]⟩] }
    let known := KnownTypes.ofNames [marker]
    let kept : ReactiveClass := {
      name := "Car"
      space := "Shop"
      fullName := "Shop.Car"
      accessibility := .isInternal
      properties := [⟨"_owner", "Owner", .isInternal, "string"⟩]
      usings := ["ReactiveObject.Generators"] }
    (marker ∈ known.names ∧ added ≠ marker ∧
      (∀ f ∈ [first, second], ∀ field ∈ f.fields, field.name ≠ "") ∧
      ∀ f ∈ [first, second], ∀ field ∈ f.fields, marksOf known marker f field ≤ 1) ∧
    ∃ before, (scan {} known [first, second]).outcome = .ok before ∧
      (scan {} (known.addName added) [first, second]).outcome = .ok [kept] ∧
      Describes before "Shop.Car" "_owner" := by
  intro marker added first second known kept
  have hnames : ∀ f ∈ [first, second], ∀ field ∈ f.fields, field.name ≠ "" := by decide
  have honce : ∀ f ∈ [first, second], ∀ field ∈ f.fields, marksOf known marker f field ≤ 1 := by
    decide +kernel
  have hknown : marker ∈ known.names := by decide
  have hother : added ≠ marker := by decide
  obtain ⟨-, before, after, hbefore, hafter, hdescribes⟩ :=
    describes_of_addName {} known [first, second] rfl hknown hother hnames honce
  have hkept : (scan {} (known.addName added) [first, second]).outcome = .ok [kept] := by
    decide +kernel
  obtain rfl := Except.ok.inj (hkept.symm.trans hafter)
  have howner : Describes [kept] "Shop.Car" "_owner" := by simp [Describes, kept]
  exact ⟨⟨hknown, hother, hnames, honce⟩, before, hbefore, hkept, hdescribes _ _ howner⟩

end Scan

end Backfield
