import Backfield.Proofs.Delivery.Preparation
import Backfield.Proofs.Layout.Declarations
import Backfield.Proofs.Layout.Nesting
import Backfield.Proofs.Layout.PropertyNames

/-!
# Texts that pass validation

The text of a class is refused if it is no C# or declares no class.  It always declares one.

* `contains_render` says so, whatever the class.
* `faultOf?_render` says that nothing is wrong with the text of a class whose names are names.
* `faultOf?_rename` says that it does not matter for what is wrong with a text, whatever class it is
  of, which plain capitalised words its properties are named with.
* `isLegalName_iff_of_scan` is the result about the names that a scan makes: one is illegal exactly
  if its field loses the start of its name, and those that keep it are no reason to refuse a text.
-/

namespace Backfield

open CSharp (IsIdentifier IsDottedName IsCapitalWord)
open CSharp.Lexeme (IsWord)
open Layout (Usings)

namespace Layout

/-- The text of a class has the word that declares one. -/
theorem contains_render (settings : Settings) (c : ReactiveClass) :
    Text.contains (render settings c) "class " = true := by
  have hdeclaration : "class ".toList <:+: (classDeclaration c).toList := by
    refine ⟨c.accessibility.text.toList ++ " partial ".toList,
      c.name.toList ++ c.typeParameters.toList, ?_⟩
    simp [classDeclaration]
  have hblock : ∀ body : String, "class ".toList <:+: (block (classDeclaration c) body).toList :=
    fun body => Text.infix_intercalate _ List.mem_cons_self hdeclaration
  have hsource : "class ".toList <:+: (classSource settings c).toList := by
    rw [classSource, enclosingDeclarations, blocks, List.foldr_append]
    exact infix_blocks (by decide) (Text.isUnbroken_of_all (by decide)) _ (hblock _)
  exact (Text.contains_iff _ _).mpr (infix_render hsource)

end Layout

namespace Delivery

/-- Nothing is wrong with the text of a class whose names are names of C#. -/
theorem faultOf?_render {settings : Settings} {method : String} {c : ReactiveClass}
    {parameters : List String} {u : Usings} (h : Layout.IsNamed c parameters u)
    (hmethod : IsIdentifier method) (hsetting : settings.notifyMethod.display = method)
    (hmarker : settings.embedMarker.isTrue = false) :
    faultOf? (Layout.render settings c) = none := by
  have hproblem : Source.firstProblem? (Layout.render settings c) = none := by
    rw [Source.firstProblem?, Layout.ofText_render h hmethod hsetting hmarker]
    rfl
  rw [faultOf?, hproblem, Layout.contains_render]
  rfl

/-- What is wrong with the text of a class is the same with other plain capitalised words for the
names of its properties. -/
theorem faultOf?_rename (settings : Settings) {c : ReactiveClass} {names : Property → String}
    (h : ∀ p ∈ c.properties, names p = p.name ∨
      IsCapitalWord p.name.toList ∧ IsCapitalWord (names p).toList) :
    faultOf? (Layout.render settings (c.rename names)) = faultOf? (Layout.render settings c) := by
  have hproblem : Source.firstProblem? (Layout.render settings (c.rename names)) =
      Source.firstProblem? (Layout.render settings c) := by
    rw [Source.firstProblem?, Source.firstProblem?, CSharp.SourceUnit.firstProblem?,
      CSharp.SourceUnit.firstProblem?,
      CSharp.problems_ofText_renamed (Layout.renamed_render settings h)]
  rw [faultOf?, faultOf?, hproblem, Layout.contains_render, Layout.contains_render]

/-- The field has a legal name that is read as one word, and so is what the underscore is dropped
from. -/
structure KeepsWord (field : String) : Prop where
  legal : IsLegalName field
  isWord : IsWord field.toList
  keeps : ¬LosesWord field

/-- The class and what is around it have names of C#, its fields too, and they are of types with
such names.  `parameters` are its type parameters, and `u` is what its using directives name. -/
structure IsNamedButProperties (c : ReactiveClass) (parameters : List String) (u : Usings) :
    Prop where
  name : IsIdentifier c.name
  containers : ∀ container ∈ c.containers, IsIdentifier container
  space : c.space = "" ∨ IsDottedName c.space
  parameterNames : ∀ parameter ∈ parameters, IsIdentifier parameter
  typeParameters : c.typeParameters = Layout.parameterText parameters
  fields : ∀ p ∈ c.properties, IsIdentifier p.field ∧ IsDottedName p.type
  areNamed : u.AreNamed
  usings : c.usings = u.texts

/-- The property of a field with a legal name has a legal name exactly when the field is no
underscore before a character that may not begin a name.  If what is left of the field is read as
one word, the text of the class is refused for the same reason, or not at all, as with any other
plain capitalised word for the property, whatever the class is.  It is not refused if all that is
named in the class has a name of C#. -/
theorem isLegalName_iff_of_scan (settings : Settings) (known : KnownTypes)
    (fragments : List Fragment) {classes : List ReactiveClass} {c : ReactiveClass}
    (hscan : (Scan.scan settings known fragments).outcome = .ok classes) (hc : c ∈ classes) :
    (∀ p ∈ c.properties, IsLegalName p.field → (IsLegalName p.name ↔ ¬LosesStart p.field)) ∧
    (∀ names : Property → String, (∀ p ∈ c.properties, names p = p.name ∨
        KeepsWord p.field ∧ IsCapitalWord (names p).toList) →
      faultOf? (Layout.render settings (c.rename names)) = faultOf? (Layout.render settings c)) ∧
    ∀ method parameters u, settings.notifyMethod.display = method → IsIdentifier method →
      settings.embedMarker.isTrue = false → IsNamedButProperties c parameters u →
      (∀ p ∈ c.properties, ¬LosesWord p.field) →
        faultOf? (Layout.render settings c) = none := by
  obtain ⟨marker, name, hdescribe⟩ := Scan.exists_describe_of_mem hscan hc
  obtain ⟨hne, -, hall⟩ := Scan.properties_of_describe hdescribe
  have hname : ∀ p ∈ c.properties, p.name = propertyName p.field := by
    intro p hp
    obtain ⟨f, -, -, field, -, -, -, rfl⟩ := hall p hp
    rfl
  refine ⟨fun p hp hlegal => ?_, fun names hnames => faultOf?_rename settings fun p hp => ?_,
    fun method parameters u hsetting hmethod hmarker hnamed hkeeps => ?_⟩
  · rw [hname p hp]
    exact isLegalName_propertyName_iff hlegal
  · refine (hnames p hp).imp_right fun ⟨hfield, hother⟩ => ⟨?_, hother⟩
    rw [hname p hp]
    exact isCapitalWord_propertyName (isPlainWord_of_isLegalName hfield.legal hfield.isWord)
      hfield.keeps
  · have hall : Layout.IsNamed c parameters u := {
      name := hnamed.name
      containers := hnamed.containers
      space := hnamed.space
      parameterNames := hnamed.parameterNames
      typeParameters := hnamed.typeParameters
      nonempty := hne
      properties := fun p hp =>
        have ⟨hfield, htype⟩ := hnamed.fields p hp
        ⟨hname p hp ▸ isIdentifier_propertyName hfield (hkeeps p hp), hfield, htype⟩
      areNamed := hnamed.areNamed
      usings := hnamed.usings }
    exact faultOf?_render hall hmethod hsetting hmarker

/-- A class with one marked field of this name. -/
def classWithField (field : String) : Fragment where
  name := "Race"
  fields := [⟨field, some "Runner", ["ReactiveObject.Generators.ReactiveProperty"]⟩]

/-- The class that is scanned from it, with one property. -/
def scannedWith (field property : String) : ReactiveClass where
  name := "Race"
  space := ""
  fullName := "Race"
  accessibility := .isInternal
  properties := [⟨field, property, .isInternal, "Runner"⟩]

theorem isLegalName_iff_of_scan_first :
    (Scan.scan {} (KnownTypes.ofNames ["ReactiveObject.Generators.ReactivePropertyAttribute"])
        [classWithField "_first"]).outcome = .ok [scannedWith "_first" "First"] ∧
      IsLegalName "First" ∧
      faultOf? (Layout.render {} (scannedWith "_first" "First")) = none ∧
      faultOf? (Layout.render {} (scannedWith "_first" "Leader")) = none := by
  have hscan : (Scan.scan {}
      (KnownTypes.ofNames ["ReactiveObject.Generators.ReactivePropertyAttribute"])
      [classWithField "_first"]).outcome = .ok [scannedWith "_first" "First"] := by
    decide +kernel
  have hlegal : IsLegalName "_first" :=
    ⟨⟨'_', "first".toList, by decide, by decide, List.all_eq_true.mp (by decide)⟩, by decide⟩
  have hstart : ¬LosesStart "_first" := by
    rintro ⟨c, rest, hfield, hc⟩
    obtain ⟨-, hrest⟩ := List.cons.inj hfield
    obtain ⟨rfl, -⟩ := List.cons.inj hrest
    exact absurd hc (by decide)
  have hkeeps : ¬LosesWord "_first" := by
    rintro ⟨c, rest, hfield, hc⟩
    obtain ⟨-, hrest⟩ := List.cons.inj hfield
    obtain ⟨rfl, rfl⟩ := List.cons.inj hrest
    exact absurd hc (by decide)
  obtain ⟨hnames, hrename, hvalid⟩ :=
    isLegalName_iff_of_scan {} _ _ hscan (List.mem_singleton_self _)
  have hnamed : IsNamedButProperties (scannedWith "_first" "First") [] ⟨[], []⟩ := {
    name := by decide
    containers := by decide
    space := Or.inl rfl
    parameterNames := by decide
    typeParameters := rfl
    fields := by decide
    areNamed := by decide
    usings := rfl }
  have hfirst : faultOf? (Layout.render {} (scannedWith "_first" "First")) = none :=
    hvalid "RaiseAndSetIfChanged" [] ⟨[], []⟩ rfl (by decide) rfl hnamed fun p hp => by
      rw [List.mem_singleton.mp hp]
      exact hkeeps
  have hleader : faultOf? (Layout.render {} (scannedWith "_first" "Leader")) =
      faultOf? (Layout.render {} (scannedWith "_first" "First")) :=
    hrename (fun _ => "Leader") fun p hp => by
      rw [List.mem_singleton.mp hp]
      exact Or.inr ⟨⟨hlegal, by decide, hkeeps⟩, by decide⟩
  exact ⟨hscan, (hnames _ (List.mem_singleton_self _) hlegal).mpr hstart, hfirst,
    hleader.trans hfirst⟩

/-- The digit after the underscore begins the name of the property, and the text of the class is
refused. -/
theorem scan_digitField :
    IsLegalName "_1st" ∧
      (Scan.scan { banner := .bool false }
        (KnownTypes.ofNames ["ReactiveObject.Generators.ReactivePropertyAttribute"])
        [classWithField "_1st"]).outcome = .ok [scannedWith "_1st" "1st"] ∧
      ¬IsLegalName "1st" ∧
      faultOf? (Layout.render { banner := .bool false } (scannedWith "_1st" "1st")) =
        some (.syntaxError 3) := by
  have hlegal : IsLegalName "_1st" :=
    ⟨⟨'_', "1st".toList, by decide, by decide, List.all_eq_true.mp (by decide)⟩, by decide⟩
  refine ⟨hlegal, by decide +kernel, ?_, by decide +kernel⟩
  rintro ⟨⟨c, rest, hname, hc, -⟩, -⟩
  obtain ⟨rfl, -⟩ := List.cons.inj hname
  exact absurd hc (by decide)

end Delivery

end Backfield
