import Backfield.Proofs.Batch.Names
import Backfield.Proofs.CSharp.Flattening
import Backfield.Proofs.Scan.Members
import Backfield.Proofs.Source.Scopes

/-!
# Types of properties

The type of a property is that of its field as it stands in a source, put on one line by the reader
and once more by the scan.  The second time nothing changes.  The first time a line may swallow the
rest of the type.

* `exists_group_of_mem_ownFields` goes back from a field to its declaration.
* `exists_written_of_scan` goes back from a property to the type that is written for its field.
* `tokensIn_type_iff` says when the property has the tokens of that type.
-/

namespace Backfield

open CSharp (Declaration FieldGroup Lexeme)
open CSharp.Lexeme (IsOrdinary isLineBound separates tokensIn)

namespace Source

/-- The declarations of fields among the members of a type. -/
def groupsIn (body : List Declaration) : List FieldGroup :=
  body.filterMap fun
    | .field group => some group
    | _ => none

/-- The declarations of fields in the classes of a text. -/
def groupsOf (code : String) : List FieldGroup :=
  (classesIn code).flatMap fun place => groupsIn place.body

theorem ownFields_eq (body : List Declaration) :
    ownFields body = (groupsIn body).flatMap fieldsOf := by
  induction body with
  | nil => rfl
  | cons declaration rest ih =>
    cases declaration with
    | field group => rw [ownFields, ih]; rfl
    | _ => exact ih

/-- A field of a class with a type stands in a declaration with that type. -/
theorem exists_group_of_mem_ownFields {body : List Declaration} {field : Field}
    (h : field ∈ ownFields body) (htype : Scan.hasType field = true) :
    ∃ group ∈ groupsIn body, field.name ∈ group.names ∧
      ∃ written, group.typeText = some written ∧ field.typeText = some (Text.collapse written) := by
  rw [ownFields_eq] at h
  obtain ⟨group, hgroup, hfield⟩ := List.mem_flatMap.mp h
  obtain ⟨name, hname, rfl⟩ := List.mem_map.mp hfield
  refine ⟨group, hgroup, List.mem_of_mem_filter hname, ?_⟩
  obtain ⟨text, htext, -⟩ := (Option.any_eq_true _ _).mp htype
  obtain ⟨hsome, -⟩ := Option.filter_eq_some_iff.mp htext
  obtain ⟨written, hwritten, rfl⟩ := Option.map_eq_some_iff.mp hsome
  exact ⟨written, hwritten, htext⟩

end Source

namespace Batch

variable {known : KnownTypes}

/-- A class of one of the sources that is read as a fragment of this class declares the field of the
property with this type. -/
def IsWrittenIn (sources : List (String × String)) (c : ReactiveClass) (p : Property)
    (written : String) : Prop :=
  ∃ source ∈ sources, ∃ place ∈ Source.classesIn source.1,
    (place.fragment source.2 {}).fullName = c.fullName ∧
      ∃ group ∈ Source.groupsIn place.body, p.field ∈ group.names ∧ group.typeText = some written

theorem exists_written_of_scan {settings : Settings} {sources : List (String × String)}
    {classes : List ReactiveClass} {c : ReactiveClass} {p : Property}
    (hscan : (Scan.scan settings known (fragmentsOf sources)).outcome = .ok classes)
    (hc : c ∈ classes) (hp : p ∈ c.properties) :
    ∃ written, IsWrittenIn sources c p written ∧ p.type = Text.collapse written := by
  obtain ⟨marker, name, hdescribe⟩ := Scan.exists_describe_of_mem hscan hc
  obtain ⟨f, hf, hname, field, hfield, htype, -, rfl⟩ :=
    (Scan.properties_of_describe hdescribe).2.2 p hp
  obtain ⟨source, hsource, hf⟩ := List.mem_flatMap.mp hf
  rw [Source.fragmentsIn_eq] at hf
  obtain ⟨place, hplace, rfl⟩ := List.mem_map.mp hf
  obtain ⟨group, hgroup, hmember, written, hwritten, htext⟩ :=
    Source.exists_group_of_mem_ownFields hfield htype
  refine ⟨written, ⟨source, hsource, place, hplace, hname, group, hgroup, hmember, hwritten⟩, ?_⟩
  rw [Scan.propertyOf, htext, Option.getD_some, Text.collapse_collapse]

/-- In a source with one group of fields the type is the type of that group. -/
theorem IsWrittenIn.typeText_eq {code path written : String} {c : ReactiveClass} {p : Property}
    {group : FieldGroup} (h : IsWrittenIn [(code, path)] c p written)
    (hgroup : Source.groupsOf code = [group]) : group.typeText = some written := by
  obtain ⟨source, hsource, place, hplace, -, other, hother, -, htext⟩ := h
  obtain rfl := List.mem_singleton.mp hsource
  have hmem : other ∈ [group] := hgroup ▸ List.mem_flatMap.mpr ⟨place, hplace, hother⟩
  rwa [← List.mem_singleton.mp hmem]

/-- The type of a property is the type that is written for its field, on one line.  If that is made
of words and symbols, both have the same tokens exactly when none is written after a comment or a
line that ends with its line. -/
theorem tokensIn_type_iff (settings : Settings) (known : KnownTypes)
    (sources : List (String × String)) {classes : List ReactiveClass} {c : ReactiveClass}
    {p : Property} (hscan : (Scan.scan settings known (fragmentsOf sources)).outcome = .ok classes)
    (hc : c ∈ classes) (hp : p ∈ c.properties) :
    ∃ written, IsWrittenIn sources c p written ∧ p.type = Text.collapse written ∧
      ((∀ l ∈ Lexeme.ofText written.toList, IsOrdinary l) →
        (tokensIn p.type = tokensIn written ↔
          (Lexeme.ofText written.toList).Pairwise fun a b =>
            isLineBound a = true → separates b = true)) := by
  obtain ⟨written, hwritten, htype⟩ := exists_written_of_scan hscan hc hp
  refine ⟨written, hwritten, htype, fun hordinary => ?_⟩
  rw [htype]
  exact Lexeme.tokensIn_collapse_eq_iff hordinary

/-- A class with one marked field of a type that is written on three lines. -/
def threeLines (comment : String) : String :=
  "using ReactiveObject.Generators;\nclass A\n\x7b\n" ++
    "    [ReactiveProperty] private List<" ++ comment ++ "\n        int\n    > _a;\n\x7d\n"

/-- A comment that says where it ends does not hurt. -/
theorem tokensIn_type_iff_blockComment :
    ∃ c p, (Scan.scan {} markerOnly
        (fragmentsOf [(threeLines " /* all\n of them */", "")])).outcome = .ok [c] ∧
      c.properties = [p] ∧ p.type = "List< /* all of them */ int >" ∧
      IsWrittenIn [(threeLines " /* all\n of them */", "")] c p
        "List< /* all\n of them */\n        int\n    >" ∧
      tokensIn p.type = tokensIn "List< /* all\n of them */\n        int\n    >" := by
  let p : Property := ⟨"_a", "A", .isInternal, "List< /* all of them */ int >"⟩
  let c : ReactiveClass := {
    name := "A", space := "", fullName := "A", accessibility := .isInternal, properties := [p]
    usings := ["ReactiveObject.Generators"] }
  have hscan : (Scan.scan {} markerOnly
      (fragmentsOf [(threeLines " /* all\n of them */", "")])).outcome = .ok [c] := by
    decide +kernel
  obtain ⟨written, hwritten, -, hiff⟩ := tokensIn_type_iff {} markerOnly _ hscan
    (List.mem_singleton_self c) (List.mem_singleton_self p)
  have hgroup : Source.groupsOf (threeLines " /* all\n of them */") =
      [⟨["ReactiveProperty"], some "List< /* all\n of them */\n        int\n    >", ["_a"]⟩] := by
    decide +kernel
  obtain rfl := Option.some.inj (hwritten.typeText_eq hgroup)
  exact ⟨c, p, hscan, rfl, rfl, hwritten, (hiff (by decide +kernel)).mpr (by decide +kernel)⟩

/-- On one line a comment after two slashes swallows the rest of the type. -/
theorem type_lineComment :
    ∃ c p, (Scan.scan {} markerOnly
        (fragmentsOf [(threeLines " // all of them", "")])).outcome = .ok [c] ∧
      c.properties = [p] ∧ p.type = "List< // all of them int >" ∧
      IsWrittenIn [(threeLines " // all of them", "")] c p
        "List< // all of them\n        int\n    >" ∧
      tokensIn p.type ≠ tokensIn "List< // all of them\n        int\n    >" := by
  let p : Property := ⟨"_a", "A", .isInternal, "List< // all of them int >"⟩
  let c : ReactiveClass := {
    name := "A", space := "", fullName := "A", accessibility := .isInternal, properties := [p]
    usings := ["ReactiveObject.Generators"] }
  have hscan : (Scan.scan {} markerOnly
      (fragmentsOf [(threeLines " // all of them", "")])).outcome = .ok [c] := by
    decide +kernel
  obtain ⟨written, hwritten, -⟩ := exists_written_of_scan hscan (List.mem_singleton_self c)
    (List.mem_singleton_self p)
  have hgroup : Source.groupsOf (threeLines " // all of them") =
      [⟨["ReactiveProperty"], some "List< // all of them\n        int\n    >", ["_a"]⟩] := by
    decide +kernel
  obtain rfl := Option.some.inj (hwritten.typeText_eq hgroup)
  exact ⟨c, p, hscan, rfl, rfl, hwritten, by decide +kernel⟩

end Batch

end Backfield
