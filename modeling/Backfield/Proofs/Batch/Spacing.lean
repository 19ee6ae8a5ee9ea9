import Backfield.Proofs.Batch.FieldTypes
import Backfield.Proofs.Layout.TypeLines
import Backfield.Proofs.Source.UsingHeadings

/-!
# Spacing of names and types

How a name or a type is spaced does not matter.  Each is collapsed when it is read, and a collapsed
text keeps the visible characters of what was written and no white space but single spaces.

* `fieldType?_of_mem_fragmentsIn` says that the types of fields that are read stay as they are when
  they are collapsed again.
* `NamesAlike` says what two texts have in common as names, and `namesAlike_of_visible` that it is
  enough if they have the same visible characters.
* `keepsLines_of_scan` says that the types of a scanned class cannot break the lines of its text.
* `collapse_canonical` puts these together.
-/

namespace Backfield.Batch

open Text (HasRuns IsNeat collapse dropSpaces runs visible)
open UsingDirective (ofText? targetOf)

/-! ## Types of fields -/

theorem fieldType?_typeText? (written : Option String) :
    Binding.fieldType? (Source.typeText? written) = Source.typeText? written := by
  cases written with
  | none => rfl
  | some text =>
    rw [Source.typeText?, Option.map_some, Option.filter_some]
    split
    · rename_i hne
      rw [Binding.fieldType?, Option.map_some, Text.collapse_collapse, Option.filter_some,
        if_pos hne]
    · rfl

/-- The types that are read stay as they are when they are collapsed again. -/
theorem fieldType?_of_mem_fragmentsIn {code path : String} {f : Fragment} {field : Field}
    (hf : f ∈ Source.fragmentsIn code path) (hfield : field ∈ f.fields) :
    Binding.fieldType? field.typeText = field.typeText := by
  rw [Source.fragmentsIn_eq] at hf
  obtain ⟨place, -, rfl⟩ := List.mem_map.mp hf
  have hmem : field ∈ Source.ownFields place.body := hfield
  rw [Source.ownFields_eq] at hmem
  obtain ⟨group, -, hgroup⟩ := List.mem_flatMap.mp hmem
  obtain ⟨name, -, rfl⟩ := List.mem_map.mp hgroup
  exact fieldType?_typeText? group.typeText

/-! ## Names -/

/-- As the name of an attribute, of a namespace and of what a using directive brings into scope,
both texts mean the same. -/
structure NamesAlike (text other : String) : Prop where
  bound : ∀ known f, (Binding.bindAttribute known f (collapse text)).outcome =
    (Binding.bindAttribute known f (collapse other)).outcome
  space : ∀ scope : Source.Scope, scope.enterSpace text = scope.enterSpace other
  target : ∀ heading : UsingHeading, heading.Admits text.toList → heading.Admits other.toList →
    ofText? (heading.write text.toList) = ofText? (heading.write other.toList)

theorem namesAlike_of_visible {text other : String}
    (h : visible text.toList = visible other.toList) : NamesAlike text other := by
  have hdrop : dropSpaces (collapse text) = dropSpaces (collapse other) := by
    rw [Text.dropSpaces_collapse, Text.dropSpaces_collapse, h]
  constructor
  · intro known f
    have hwritten : Binding.WrittenName.ofText (collapse text) =
        Binding.WrittenName.ofText (collapse other) := by
      rw [Binding.WrittenName.ofText, Binding.WrittenName.ofText, hdrop]
    rw [Scan.outcome_bindAttribute, Scan.outcome_bindAttribute, Binding.bindAttribute?,
      Binding.bindAttribute?, hwritten]
  · intro scope
    rw [Source.Scope.enterSpace, Source.Scope.enterSpace, Source.joinSpaces, Source.joinSpaces,
      hdrop]
  · intro heading htext hother
    rw [UsingDirective.ofText?_write htext, UsingDirective.ofText?_write hother, h]

/-! ## Types of properties -/

/-- The types of a class that a scan returns cannot break the lines of its text. -/
theorem keepsLines_of_scan {settings : Settings} {known : KnownTypes} {fragments : List Fragment}
    {classes : List ReactiveClass} {c : ReactiveClass}
    (hscan : (Scan.scan settings known fragments).outcome = .ok classes) (hc : c ∈ classes) :
    Layout.KeepsLines settings c := by
  obtain ⟨marker, name, hdescribe⟩ := Scan.exists_describe_of_mem hscan hc
  refine Layout.keepsLines_of_isOneLine settings fun p hp => ?_
  obtain ⟨f, -, -, field, -, htype, -, rfl⟩ := (Scan.properties_of_describe hdescribe).2.2 p hp
  obtain ⟨text, htext, hink⟩ := (Option.any_eq_true _ _).mp htype
  have hwritten : (Scan.propertyOf c.accessibility field).type = collapse text := by
    rw [Scan.propertyOf, htext, Option.getD_some]
  rw [hwritten]
  refine ⟨fun hempty => ?_, Text.isUnbroken_collapse text⟩
  rw [Text.collapse_eq_empty_iff, hink] at hempty
  cases hempty

/-! ## Collapsed texts -/

/-- A collapsed text is the runs of visible characters of the text with single spaces between them.
Collapsing it again changes nothing, it is one line without other white space, and without its
spaces it is the visible characters of the text.  So the types that are read stay as they are when
they are bound, names mean the same however they are spaced, and a type cannot break the lines of a
rendered class. -/
theorem collapse_canonical (text : String) :
    ((∀ words, HasRuns text.toList words ↔ words = runs text.toList) ∧
      collapse text = " ".intercalate ((runs text.toList).map String.ofList)) ∧
    collapse (collapse text) = collapse text ∧
    IsNeat (collapse text).toList ∧
    dropSpaces (collapse text) = String.ofList (visible text.toList) ∧
    (∀ path, ∃ fragments, (Source.readFragments text path).outcome = .ok fragments ∧
      ∀ f ∈ fragments, ∀ field ∈ f.fields,
        Binding.fieldType? field.typeText = field.typeText) ∧
    (∀ other, visible text.toList = visible other.toList → NamesAlike text other) ∧
    (∀ heading : UsingHeading, heading.Admits text.toList →
      ofText? (heading.write text.toList) =
        some (heading.directive (targetOf (visible text.toList)))) ∧
    ∀ settings known fragments classes, (Scan.scan settings known fragments).outcome = .ok classes →
      ∀ c ∈ classes, Layout.KeepsLines settings c := by
  refine ⟨⟨fun words => Text.hasRuns_iff, Text.collapse_eq_runs text⟩, Text.collapse_collapse text,
    Text.isNeat_collapse text, Text.dropSpaces_collapse text, fun path => ?_,
    fun other h => namesAlike_of_visible h, fun heading h => UsingDirective.ofText?_write h,
    fun settings known fragments classes hscan c hc => keepsLines_of_scan hscan hc⟩
  exact ⟨_, Source.outcome_readFragments text path, fun f hf field hfield =>
    fieldType?_of_mem_fragmentsIn hf hfield⟩

/-- What stands before the target of a global alias. -/
def globalAlias : UsingHeading where
  before := []
  global? := some ['\t']
  after := [' ']
  alias? := some (['T'], [' '])
  before_blank := rfl
  global_blank := by
    rintro gap ⟨⟩
    exact ⟨List.cons_ne_nil _ _, rfl⟩
  after_blank := ⟨List.cons_ne_nil _ _, rfl⟩
  alias_named := by
    rintro named ⟨⟩
    exact ⟨⟨List.cons_ne_nil _ _, List.forall_mem_singleton.mpr (by decide)⟩, by decide, rfl⟩

/-- The target of an alias is the same with an em space, a no-break space and a line separator in
it. -/
theorem collapse_canonical_unusualBlanks :
    let text := "\u2003System .\u00a0Text\u2028"
    globalAlias.Admits text.toList ∧ collapse text = "System . Text" ∧
      NamesAlike text "System.Text" ∧
      ofText? (globalAlias.write text.toList) = some (.aliased "T" "System.Text") := by
  intro text
  have hadmits : globalAlias.Admits text.toList :=
    ⟨by decide +kernel, by decide +kernel, nofun, nofun⟩
  obtain ⟨⟨-, hcollapse⟩, -, -, -, -, halike, htarget, -⟩ := collapse_canonical text
  refine ⟨hadmits, hcollapse.trans (by decide +kernel), halike _ (by decide +kernel), ?_⟩
  rw [htarget globalAlias hadmits]
  decide +kernel

end Backfield.Batch
