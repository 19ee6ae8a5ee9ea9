import Backfield.Proofs.CSharp.Declared
import Backfield.Proofs.Source.Scopes

/-!
# Declarations in conditional sections

The reader does not look into `#if` sections.  The classes in them have no fragments, and the
variables in them are no fields of the class around them; all others are there.

* `isSeen_iff` says which types of a text without problems the reader sees: those that stand in no
  conditional section.
* `map_name_ownFields` says which variables of a class become fields, and `ownVariables_eq_iff` when
  these are all.
* `readFragments_unconditional` is the result for a whole text, and `readFragments_hiddenSource` a
  text of which a class and a field are lost.
-/

namespace Backfield.Source

open CSharp (Declaration SourceUnit)
open CSharp.Declaration (declared declaredIn)

variable {declarations : List Declaration} {place : Place}

/-! ## Names at a place -/

/-- A declaration declares what is in its body, and its own name if it is a type. -/
theorem declared_of_opens? {first : Declaration} {body : List Declaration} {opener : Bearing}
    (hopens : opens? first = some (opener, body)) :
    declaredIn body ⊆ first.declared ∧ ∀ name, opener = .type name → name ∈ first.declared := by
  cases first with
  | space name body =>
    cases hopens
    exact ⟨List.Subset.refl _, fun _ h => by cases h⟩
  | type head body =>
    cases hopens
    exact ⟨List.subset_cons_self _ _, fun _ h => by cases h; exact List.mem_cons_self⟩
  | conditional body =>
    cases hopens
    exact ⟨List.Subset.refl _, fun _ h => by cases h⟩
  | usingDirective text => cases hopens
  | fileSpace name => cases hopens
  | field group => cases hopens
  | other => cases hopens

/-- The names at a place, and those of the types around it, are among all names. -/
theorem Stands.declared_subset {position : Position} {around : List Bearing}
    {declaration : Declaration} (h : Stands declarations position around declaration) :
    declaration.declared ⊆ declaredIn declarations ∧
      ∀ name, .type name ∈ around → name ∈ declaredIn declarations := by
  induction h with
  | here =>
    exact ⟨List.subset_append_left _ _, fun _ h => absurd h List.not_mem_nil⟩
  | after first h ih =>
    refine ⟨List.subset_append_of_subset_right _ ih.1, fun name hname => ?_⟩
    have hleaves : .type name ∉ leaves first := by cases first <;> simp [leaves]
    exact List.mem_append_right _ (ih.2 name ((List.mem_append.mp hname).resolve_left hleaves))
  | inside hopens h ih =>
    obtain ⟨hbody, howner⟩ := declared_of_opens? hopens
    refine ⟨List.subset_append_of_subset_left _ (List.Subset.trans ih.1 hbody), fun name hname => ?_⟩
    rcases List.mem_cons.mp hname with heq | hname
    · exact List.mem_append_left _ (howner name heq.symm)
    · exact List.mem_append_left _ (hbody (ih.2 name hname))

/-- Where all types have names the reader passes over conditional sections only. -/
theorem isSeen_iff (hnames : ∀ name ∈ declaredIn declarations, name ≠ "")
    (h : place.StandsIn declarations) : place.isSeen = true ↔ .conditional ∉ place.around := by
  obtain ⟨hown, haround⟩ := h.declared_subset
  have hname : place.head.name ≠ "" := hnames _ (hown List.mem_cons_self)
  rw [Place.isSeen, Bool.and_eq_true, List.all_eq_true, bne_iff_ne]
  constructor
  · rintro ⟨-, hopen⟩ hmem
    exact absurd (hopen _ hmem) (by decide)
  · refine fun hnone => ⟨hname, fun b hb => ?_⟩
    cases b with
    | directive text => rfl
    | space name => rfl
    | type name => simpa [Bearing.isHidden] using hnames name (haround name hb)
    | conditional => exact absurd hb hnone

/-! ## Variables -/

mutual

/-- The variables that a member of a class declares for it, also in a conditional section. -/
def variablesOf : Declaration → List String
  | .field group => group.names
  | .conditional body => variablesIn body
  | .usingDirective _ => []
  | .space _ _ => []
  | .fileSpace _ => []
  | .type _ _ => []
  | .other => []
termination_by structural declaration => declaration

/-- The variables that a class with this body declares. -/
def variablesIn : List Declaration → List String
  | [] => []
  | declaration :: rest => variablesOf declaration ++ variablesIn rest
termination_by structural declarations => declarations

end

/-- The variables that stand in the body itself. -/
def ownVariables (body : List Declaration) : List String :=
  body.flatMap fun
    | .field group => group.names
    | _ => []

theorem map_name_fieldsOf {group : CSharp.FieldGroup} (hnames : ∀ name ∈ group.names, name ≠ "") :
    (fieldsOf group).map Field.name = group.names := by
  have hkept : group.names.filter (· != "") = group.names := by
    rw [List.filter_eq_self]
    exact fun name hname => bne_iff_ne.mpr (hnames name hname)
  rw [fieldsOf, hkept, List.map_map]
  exact List.map_id _

/-- The fields of a class are the variables that stand in its body itself. -/
theorem map_name_ownFields {body : List Declaration}
    (hnames : ∀ name ∈ declaredIn body, name ≠ "") :
    (ownFields body).map Field.name = ownVariables body := by
  induction body with
  | nil => rfl
  | cons first rest ih =>
    rw [declaredIn, List.forall_mem_append] at hnames
    have hrest := ih hnames.2
    cases first with
    | field group =>
      rw [ownFields, List.map_append, map_name_fieldsOf hnames.1, hrest]
      rfl
    | usingDirective text => exact hrest
    | space name body => exact hrest
    | fileSpace name => exact hrest
    | type head body => exact hrest
    | conditional body => exact hrest
    | other => exact hrest

theorem ownVariables_sublist (body : List Declaration) :
    (ownVariables body).Sublist (variablesIn body) := by
  induction body with
  | nil => exact List.Sublist.refl _
  | cons first rest ih =>
    rw [variablesIn]
    cases first with
    | field group => exact ih.append_left group.names
    | usingDirective text => exact ih
    | space name body => exact ih
    | fileSpace name => exact ih
    | type head body => exact ih
    | conditional body => exact ih.trans (List.sublist_append_right _ _)
    | other => exact ih

/-- They are all variables exactly when no conditional section in the body declares any. -/
theorem ownVariables_eq_iff (body : List Declaration) :
    ownVariables body = variablesIn body ↔
      ∀ branches, .conditional branches ∈ body → variablesIn branches = [] := by
  induction body with
  | nil => simp [ownVariables, variablesIn]
  | cons first rest ih =>
    have hother : (∀ branches, .conditional branches ≠ first) →
        ((∀ branches, .conditional branches ∈ first :: rest → variablesIn branches = []) ↔
          ∀ branches, .conditional branches ∈ rest → variablesIn branches = []) := by
      intro hne
      simp only [List.mem_cons, hne, false_or]
    cases first with
    | conditional branches =>
      have hcons : ownVariables (.conditional branches :: rest) = ownVariables rest := rfl
      rw [hcons, variablesIn, variablesOf]
      constructor
      · intro heq
        have hlength := congrArg List.length heq
        have hle := (ownVariables_sublist rest).length_le
        rw [List.length_append] at hlength
        have hnone : variablesIn branches = [] := by
          rw [← List.length_eq_zero_iff]
          omega
        rw [hnone, List.nil_append] at heq
        intro inner hinner
        rcases List.mem_cons.mp hinner with hfirst | hrest
        · cases hfirst
          exact hnone
        · exact ih.mp heq inner hrest
      · intro hall
        rw [hall branches List.mem_cons_self, List.nil_append]
        exact ih.mpr fun inner hinner => hall inner (List.mem_cons_of_mem _ hinner)
    | field group =>
      have hcons : ownVariables (.field group :: rest) = group.names ++ ownVariables rest := rfl
      rw [hother (by simp), hcons, variablesIn, variablesOf, List.append_cancel_left_eq, ih]
    | usingDirective text => exact ih.trans (hother (by simp)).symm
    | space name body => exact ih.trans (hother (by simp)).symm
    | fileSpace name => exact ih.trans (hother (by simp)).symm
    | type head body => exact ih.trans (hother (by simp)).symm
    | other => exact ih.trans (hother (by simp)).symm

/-! ## Whole texts -/

/-- The classes of a text, wherever they stand. -/
def allClassesIn (code : String) : List Place :=
  (typesOf (SourceUnit.ofText code).declarations).filter Place.isClass

theorem mem_allClassesIn_iff {code : String} :
    place ∈ allClassesIn code ↔
      place.StandsIn (SourceUnit.ofText code).declarations ∧ place.isClass = true := by
  rw [allClassesIn, List.mem_filter, mem_typesOf_iff]

/-- Of the classes of a text without problems the reader sees those in no conditional section. -/
theorem filter_allClassesIn {code : String}
    (hnames : ∀ name ∈ declaredIn (SourceUnit.ofText code).declarations, name ≠ "") :
    (allClassesIn code).filter (fun place => .conditional ∉ place.around) = classesIn code := by
  rw [allClassesIn, classesIn, List.filter_filter, List.filter_filter]
  refine List.filter_congr fun place hplace => ?_
  have hseen := isSeen_iff hnames (mem_typesOf_iff.mp hplace)
  have hsame : decide (.conditional ∉ place.around) = place.isSeen :=
    Bool.eq_iff_iff.mpr (decide_eq_true_iff.trans hseen.symm)
  rw [hsame, Bool.and_comm]

/-- Without problems a text gives one fragment for each class that stands in no conditional
section, in the order of the text.  It has one field for each variable in the body of the class
itself, and these are all variables of the class exactly when no conditional section in the body
declares any.  So every class has a fragment exactly when none stands in a conditional section. -/
theorem readFragments_unconditional {code : String} (path : String)
    (hproblems : (SourceUnit.ofText code).problems = []) :
    ∃ classes fragments, (readFragments code path).outcome = .ok fragments ∧
      InOrder classes ∧
      (∀ place, place ∈ classes ↔
        place.StandsIn (SourceUnit.ofText code).declarations ∧ place.isClass = true) ∧
      List.Forall₂ (fun place f => place.IsReadAs path f ∧
          f.fields.map Field.name = ownVariables place.body ∧
          (f.fields.map Field.name = variablesIn place.body ↔
            ∀ branches, .conditional branches ∈ place.body → variablesIn branches = []))
        (classes.filter fun place => .conditional ∉ place.around) fragments ∧
      (fragments.length = classes.length ↔ ∀ place ∈ classes, .conditional ∉ place.around) := by
  have hnames := SourceUnit.ne_empty_of_mem_declared hproblems
  have hseen := filter_allClassesIn hnames
  refine ⟨allClassesIn code, fragmentsIn code path, outcome_readFragments code path,
    (inOrder_typesOf _).filter _, fun place => mem_allClassesIn_iff, ?_, ?_⟩
  · rw [hseen, fragmentsIn_eq, List.forall₂_map_right_iff, List.forall₂_same]
    intro place hplace
    have hstands := (mem_classesIn_iff.mp hplace).1
    have hread := place.isReadAs_fragment path
    have hvariables : (place.fragment path {}).fields.map Field.name = ownVariables place.body := by
      rw [hread.fields]
      refine map_name_ownFields fun name hname => hnames name ?_
      exact hstands.declared_subset.1 (List.mem_cons_of_mem _ hname)
    exact ⟨hread, hvariables, hvariables ▸ ownVariables_eq_iff place.body⟩
  · rw [fragmentsIn_eq, List.length_map, ← hseen, List.length_filter_eq_length_iff]
    simp only [decide_eq_true_eq]

/-- A class in a class, and no conditional section. -/
def openSource : String := "class C \x7b int _x, _y; class D \x7b \x7d \x7d\n"

theorem readFragments_unconditional_openSource :
    ∃ (classes : List Place) (fragments : List Fragment),
      (readFragments openSource noPath).outcome = .ok fragments ∧
      (∀ place, place ∈ classes ↔
        place.StandsIn (SourceUnit.ofText openSource).declarations ∧ place.isClass = true) ∧
      fragments.length = classes.length := by
  have hnone : ∀ place ∈ allClassesIn openSource, .conditional ∉ place.around := by decide +kernel
  have hproblems : (SourceUnit.ofText openSource).problems = [] := by decide +kernel
  obtain ⟨classes, fragments, hread, -, hclasses, -, hlength⟩ :=
    readFragments_unconditional noPath hproblems
  refine ⟨classes, fragments, hread, hclasses, hlength.mpr fun place hplace => hnone place ?_⟩
  exact mem_allClassesIn_iff.mpr ((hclasses place).mp hplace)

/-- A class in a conditional section, and a class with a variable in one. -/
def hiddenSource : String :=
  "#if A\nclass C \x7b \x7d\n#endif\nclass D\n\x7b\n#if A\n    int _x;\n#endif\n    int _y;\n\x7d\n"

/-- The first class and the first variable are lost. -/
theorem readFragments_hiddenSource :
    (SourceUnit.ofText hiddenSource).problems = [] ∧
      ((allClassesIn hiddenSource).map fun place =>
          (place.head.name, place.around, variablesIn place.body)) =
        [("C", [.conditional], []), ("D", [], ["_x", "_y"])] ∧
      ((fragmentsIn hiddenSource noPath).map fun f => (f.name, f.fields.map Field.name)) =
        [("D", ["_y"])] := by
  decide +kernel

end Backfield.Source
