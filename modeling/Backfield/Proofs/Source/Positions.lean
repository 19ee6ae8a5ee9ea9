import Mathlib.Data.List.Basic
import Backfield.Source.Reader

/-!
# Where declarations stand

A declaration stands in a body at an index, and that body belongs to a declaration around it, up
to the file.  The indices are its position; positions are ordered as the declarations are in the
text, one that is around another first.

* `Stands` says where a declaration stands and what bears on it there: the namespaces, types and
  conditional sections around it, and the directives and namespaces for the rest of the file that
  come before it in one of the bodies it is in.
* `Stands.directive_iff` says which directives these are: those before it in the same body or in a
  body around it.  What stands in the body of another declaration is not among them.
* `typesOf` lists the types of a text.  `mem_typesOf_iff` says that it has them all, and
  `inOrder_typesOf` that it has them in order.
-/

namespace Backfield.Source

open CSharp (Declaration TypeHead)

/-- What bears on a declaration. -/
inductive Bearing
  /-- A using directive before it. -/
  | directive (text : String)
  /-- A namespace around it, or one for the rest of the file before it. -/
  | space (name : String)
  /-- A type around it. -/
  | type (name : String)
  /-- An `#if` around it. -/
  | conditional
  deriving DecidableEq, Repr

/-- What a declaration leaves for those after it in the same body. -/
def leaves : Declaration → List Bearing
  | .usingDirective text => [.directive text]
  | .fileSpace name => [.space name]
  | _ => []

/-- The body of a declaration, and what the declaration is for those in it. -/
def opens? : Declaration → Option (Bearing × List Declaration)
  | .space name body => some (.space name, body)
  | .type head body => some (.type head.name, body)
  | .conditional body => some (.conditional, body)
  | _ => none

/-- The index of a declaration in its body, after those of the declarations around it. -/
abbrev Position := List Nat

/-- Among these declarations, at this position, stands a declaration.  What bears on it is listed
in the order of the text. -/
inductive Stands : List Declaration → Position → List Bearing → Declaration → Prop
  | here {declaration : Declaration} {rest : List Declaration} :
    Stands (declaration :: rest) [0] [] declaration
  | after {rest : List Declaration} {index : Nat} {inner : Position} {around : List Bearing}
      {declaration : Declaration} (first : Declaration)
      (h : Stands rest (index :: inner) around declaration) :
    Stands (first :: rest) ((index + 1) :: inner) (leaves first ++ around) declaration
  | inside {first : Declaration} {body rest : List Declaration} {opener : Bearing}
      {position : Position} {around : List Bearing} {declaration : Declaration}
      (hopens : opens? first = some (opener, body))
      (h : Stands body position around declaration) :
    Stands (first :: rest) (0 :: position) (opener :: around) declaration

variable {declarations : List Declaration} {position : Position} {around front : List Bearing}
  {declaration : Declaration} {text : String}

theorem Stands.position_ne_nil (h : Stands declarations position around declaration) :
    position ≠ [] := by
  cases h <;> exact List.cons_ne_nil _ _

/-! ## Directives -/

/-- A declaration stands before another: in the same body, or in one that is around it. -/
def Precedes (earlier later : Position) : Prop :=
  ∃ outer index index' inner,
    earlier = outer ++ [index] ∧ later = outer ++ index' :: inner ∧ index < index'

theorem Precedes.within {earlier later : Position} (h : Precedes earlier later) (index : Nat) :
    Precedes (index :: earlier) (index :: later) := by
  obtain ⟨outer, i, j, inner, rfl, rfl, hlt⟩ := h
  exact ⟨index :: outer, i, j, inner, rfl, rfl, hlt⟩

theorem precedes_cons_iff {earlier later : Position} {i j : Nat} :
    Precedes (i :: earlier) (j :: later) ↔
      (earlier = [] ∧ i < j) ∨ (i = j ∧ Precedes earlier later) := by
  constructor
  · rintro ⟨outer, i', j', inner, hearlier, hlater, hlt⟩
    cases outer with
    | nil =>
      obtain ⟨rfl, rfl⟩ := List.cons.inj hearlier
      obtain ⟨rfl, rfl⟩ := List.cons.inj hlater
      exact Or.inl ⟨rfl, hlt⟩
    | cons first outer =>
      obtain ⟨rfl, rfl⟩ := List.cons.inj hearlier
      obtain ⟨rfl, rfl⟩ := List.cons.inj hlater
      exact Or.inr ⟨rfl, outer, i', j', inner, rfl, rfl, hlt⟩
  · rintro (⟨rfl, hlt⟩ | ⟨rfl, h⟩)
    · exact ⟨[], i, j, later, rfl, rfl, hlt⟩
    · exact h.within i

theorem precedes_succ_iff {earlier later : Position} {i j : Nat} :
    Precedes ((i + 1) :: earlier) ((j + 1) :: later) ↔ Precedes (i :: earlier) (j :: later) := by
  rw [precedes_cons_iff, precedes_cons_iff, Nat.add_lt_add_iff_right, Nat.add_right_cancel_iff]

/-- Nothing in a body comes before anything but what is in it. -/
theorem not_precedes_of_ne {earlier later : Position} {i j : Nat} (hne : earlier ≠ [])
    (hij : i ≠ j) : ¬Precedes (i :: earlier) (j :: later) := by
  rw [precedes_cons_iff]
  rintro (⟨hnil, -⟩ | ⟨heq, -⟩)
  · exact hne hnil
  · exact hij heq

theorem not_precedes_zero {earlier later : Position} {i : Nat} :
    ¬Precedes ((i + 1) :: earlier) (0 :: later) := by
  rw [precedes_cons_iff]
  omega

/-- A directive among what a declaration leaves and what comes after it. -/
theorem leaves_append_eq {first : Declaration} {back : List Bearing}
    (h : leaves first ++ around = front ++ .directive text :: back) :
    (first = .usingDirective text ∧ front = []) ∨
      ∃ front', front = leaves first ++ front' ∧ around = front' ++ .directive text :: back := by
  cases first with
  | usingDirective text' =>
    cases front with
    | nil =>
      cases h
      exact Or.inl ⟨rfl, rfl⟩
    | cons b front' =>
      obtain ⟨rfl, htail⟩ := List.cons.inj h
      exact Or.inr ⟨front', rfl, htail⟩
  | fileSpace name =>
    cases front with
    | nil => cases h
    | cons b front' =>
      obtain ⟨rfl, htail⟩ := List.cons.inj h
      exact Or.inr ⟨front', rfl, htail⟩
  | space name body => exact Or.inr ⟨front, rfl, h⟩
  | type head body => exact Or.inr ⟨front, rfl, h⟩
  | field group => exact Or.inr ⟨front, rfl, h⟩
  | conditional body => exact Or.inr ⟨front, rfl, h⟩
  | other => exact Or.inr ⟨front, rfl, h⟩

theorem ne_directive_of_opens? {first : Declaration} {body : List Declaration} {opener : Bearing}
    (h : opens? first = some (opener, body)) : opener ≠ .directive text := by
  rintro rfl
  cases first <;> cases h

/-- A directive that bears on a declaration stands before it, and what is listed before it bears on
it in turn. -/
theorem Stands.exists_directive {back : List Bearing}
    (h : Stands declarations position (front ++ .directive text :: back) declaration) :
    ∃ earlier, Precedes earlier position ∧
      Stands declarations earlier front (.usingDirective text) := by
  generalize haround : front ++ .directive text :: back = around at h
  induction h generalizing front with
  | here => simp at haround
  | after first h ih =>
    rcases leaves_append_eq haround.symm with ⟨rfl, rfl⟩ | ⟨front', rfl, heq⟩
    · exact ⟨[0], ⟨[], 0, _, _, rfl, rfl, Nat.succ_pos _⟩, .here⟩
    · obtain ⟨earlier, hearlier, hstands⟩ := ih heq.symm
      obtain ⟨i, outer, rfl⟩ := List.exists_cons_of_ne_nil hstands.position_ne_nil
      exact ⟨(i + 1) :: outer, precedes_succ_iff.mpr hearlier, hstands.after first⟩
  | inside hopens h ih =>
    cases front with
    | nil => exact absurd (List.cons.inj haround).1.symm (ne_directive_of_opens? hopens)
    | cons opener front =>
      obtain ⟨rfl, heq⟩ := List.cons.inj haround
      obtain ⟨earlier, hearlier, hstands⟩ := ih heq
      exact ⟨0 :: earlier, hearlier.within 0, hstands.inside hopens⟩

/-- A directive before a declaration bears on it, after what bears on the directive. -/
theorem Stands.exists_eq_append {earlier : Position}
    (h : Stands declarations position around declaration)
    (hdirective : Stands declarations earlier front (.usingDirective text))
    (hearlier : Precedes earlier position) :
    ∃ back, around = front ++ .directive text :: back := by
  induction h generalizing earlier front with
  | here =>
    obtain ⟨i, outer, rfl⟩ := List.exists_cons_of_ne_nil hdirective.position_ne_nil
    rcases precedes_cons_iff.mp hearlier with ⟨-, hlt⟩ | ⟨-, _, _, _, _, -, hnil, -⟩
    · omega
    · simp at hnil
  | @after rest index inner around _ first _ ih =>
    cases hdirective with
    | here => exact ⟨around, rfl⟩
    | after _ hstands =>
      obtain ⟨back, rfl⟩ := ih hstands (precedes_succ_iff.mp hearlier)
      exact ⟨back, by simp⟩
    | inside _ hstands =>
      exact absurd hearlier (not_precedes_of_ne hstands.position_ne_nil (by omega))
  | inside hopens _ ih =>
    cases hdirective with
    | here => cases hopens
    | after _ _ => exact absurd hearlier not_precedes_zero
    | inside hopens' hstands =>
      obtain ⟨rfl, rfl⟩ := Prod.mk.inj (Option.some.inj (hopens.symm.trans hopens'))
      rcases precedes_cons_iff.mp hearlier with ⟨-, hlt⟩ | ⟨-, hinside⟩
      · omega
      · obtain ⟨back, rfl⟩ := ih hstands hinside
        exact ⟨back, rfl⟩

/-- The directives that bear on a declaration are those before it, in the same body or in one
that is around it. -/
theorem Stands.directive_iff (h : Stands declarations position around declaration) :
    (∃ back, around = front ++ .directive text :: back) ↔
      ∃ earlier, Precedes earlier position ∧
        Stands declarations earlier front (.usingDirective text) := by
  constructor
  · rintro ⟨back, rfl⟩
    exact h.exists_directive
  · rintro ⟨earlier, hearlier, hdirective⟩
    exact h.exists_eq_append hdirective hearlier

/-! ## Types -/

/-- A type and where it stands. -/
structure Place where
  position : Position
  around : List Bearing
  head : TypeHead
  body : List Declaration

namespace Place

/-- A place in the body of the first of the declarations. -/
def inside (opener : Bearing) (place : Place) : Place :=
  { place with position := 0 :: place.position, around := opener :: place.around }

/-- A place among the declarations after the first. -/
def after (first : Declaration) (place : Place) : Place :=
  { place with
    position := place.position.modifyHead (· + 1)
    around := leaves first ++ place.around }

/-- The type stands there among the declarations. -/
def StandsIn (declarations : List Declaration) (place : Place) : Prop :=
  Stands declarations place.position place.around (.type place.head place.body)

end Place

mutual

/-- The types that a declaration declares, if it is the first of all. -/
def types : Declaration → List Place
  | .space name body => (typesOf body).map (Place.inside (.space name))
  | .type head body =>
    ⟨[0], [], head, body⟩ :: (typesOf body).map (Place.inside (.type head.name))
  | .conditional body => (typesOf body).map (Place.inside .conditional)
  | .usingDirective _ => []
  | .fileSpace _ => []
  | .field _ => []
  | .other => []
termination_by structural declaration => declaration

/-- The types that successive declarations declare, in the order of the text. -/
def typesOf : List Declaration → List Place
  | [] => []
  | first :: rest => types first ++ (typesOf rest).map (Place.after first)
termination_by structural declarations => declarations

end

variable {place : Place}

theorem Place.StandsIn.after (h : place.StandsIn declarations) (first : Declaration) :
    (place.after first).StandsIn (first :: declarations) := by
  obtain ⟨index, inner, hposition⟩ := List.exists_cons_of_ne_nil h.position_ne_nil
  unfold Place.StandsIn at h ⊢
  rw [hposition] at h
  simp only [Place.after, hposition, List.modifyHead_cons]
  exact h.after first

mutual

theorem standsIn_of_mem_types :
    ∀ first : Declaration, ∀ place ∈ types first, ∀ rest, place.StandsIn (first :: rest)
  | .space name body => by
    intro place hplace rest
    obtain ⟨inner, hinner, rfl⟩ := List.mem_map.mp hplace
    exact (standsIn_of_mem_typesOf body inner hinner).inside rfl
  | .type head body => by
    intro place hplace rest
    rcases List.mem_cons.mp hplace with rfl | hplace
    · exact Stands.here
    · obtain ⟨inner, hinner, rfl⟩ := List.mem_map.mp hplace
      exact (standsIn_of_mem_typesOf body inner hinner).inside rfl
  | .conditional body => by
    intro place hplace rest
    obtain ⟨inner, hinner, rfl⟩ := List.mem_map.mp hplace
    exact (standsIn_of_mem_typesOf body inner hinner).inside rfl
  | .usingDirective _ => fun _ h => by cases h
  | .fileSpace _ => fun _ h => by cases h
  | .field _ => fun _ h => by cases h
  | .other => fun _ h => by cases h

theorem standsIn_of_mem_typesOf :
    ∀ declarations : List Declaration, ∀ place ∈ typesOf declarations,
      place.StandsIn declarations
  | [] => fun _ h => by cases h
  | first :: rest => by
    intro place hplace
    rw [typesOf] at hplace
    rcases List.mem_append.mp hplace with hhere | hrest
    · exact standsIn_of_mem_types first place hhere rest
    · obtain ⟨later, hlater, rfl⟩ := List.mem_map.mp hrest
      exact (standsIn_of_mem_typesOf rest later hlater).after first

end

/-- A type in the body of a declaration is one that the declaration declares. -/
theorem mem_types_of_opens? {first : Declaration} {body : List Declaration} {opener : Bearing}
    (hopens : opens? first = some (opener, body)) (h : place ∈ typesOf body) :
    place.inside opener ∈ types first := by
  have hmem : place.inside opener ∈ (typesOf body).map (Place.inside opener) :=
    List.mem_map_of_mem h
  cases first with
  | space name body =>
    cases hopens
    exact hmem
  | type head body =>
    cases hopens
    exact List.mem_cons_of_mem _ hmem
  | conditional body =>
    cases hopens
    exact hmem
  | usingDirective text => cases hopens
  | fileSpace name => cases hopens
  | field group => cases hopens
  | other => cases hopens

theorem Stands.mem_typesOf {head : TypeHead} {body : List Declaration}
    (h : Stands declarations position around (.type head body)) :
    ⟨position, around, head, body⟩ ∈ typesOf declarations := by
  generalize hdeclaration : Declaration.type head body = declaration at h
  induction h with
  | here =>
    cases hdeclaration
    exact List.mem_append_left _ List.mem_cons_self
  | after first h ih =>
    exact List.mem_append_right _ (List.mem_map_of_mem (ih hdeclaration))
  | inside hopens h ih =>
    exact List.mem_append_left _ (mem_types_of_opens? hopens (ih hdeclaration))

/-- All types are listed, wherever they stand. -/
theorem mem_typesOf_iff : place ∈ typesOf declarations ↔ place.StandsIn declarations :=
  ⟨standsIn_of_mem_typesOf declarations place, Stands.mem_typesOf⟩

/-- The types of the first declaration stand at its index or in its body. -/
theorem exists_position_of_mem_types {first : Declaration} (h : place ∈ types first) :
    ∃ inner, place.position = 0 :: inner := by
  cases first with
  | space name body =>
    obtain ⟨inner, -, rfl⟩ := List.mem_map.mp h
    exact ⟨_, rfl⟩
  | type head body =>
    rcases List.mem_cons.mp h with rfl | h
    · exact ⟨_, rfl⟩
    · obtain ⟨inner, -, rfl⟩ := List.mem_map.mp h
      exact ⟨_, rfl⟩
  | conditional body =>
    obtain ⟨inner, -, rfl⟩ := List.mem_map.mp h
    exact ⟨_, rfl⟩
  | usingDirective text => cases h
  | fileSpace name => cases h
  | field group => cases h
  | other => cases h

/-- Places one after the other in the text. -/
def InOrder (places : List Place) : Prop :=
  places.Pairwise fun earlier later => earlier.position < later.position

theorem InOrder.inside {places : List Place} (h : InOrder places) (opener : Bearing) :
    InOrder (places.map (Place.inside opener)) := by
  refine List.Pairwise.map _ (fun earlier later hlt => ?_) h
  exact List.cons_lt_cons_self.mpr hlt

theorem InOrder.after {places : List Place} (h : InOrder places)
    (hplaces : ∀ place ∈ places, place.position ≠ []) (first : Declaration) :
    InOrder (places.map (Place.after first)) := by
  rw [InOrder, List.pairwise_map]
  refine h.imp_of_mem fun {earlier later} hearlier hlater hlt => ?_
  obtain ⟨i, inner, hi⟩ := List.exists_cons_of_ne_nil (hplaces earlier hearlier)
  obtain ⟨j, inner', hj⟩ := List.exists_cons_of_ne_nil (hplaces later hlater)
  rw [hi, hj, List.cons_lt_cons_iff] at hlt
  simp only [Place.after, hi, hj, List.modifyHead_cons, List.cons_lt_cons_iff]
  exact hlt.imp Nat.succ_lt_succ (And.imp_left (congrArg Nat.succ))

mutual

theorem inOrder_types : ∀ first : Declaration, InOrder (types first)
  | .space name body => (inOrder_typesOf body).inside _
  | .type head body => by
    refine List.Pairwise.cons (fun place hplace => ?_) ((inOrder_typesOf body).inside _)
    obtain ⟨inner, hinner, rfl⟩ := List.mem_map.mp hplace
    have hne := (standsIn_of_mem_typesOf body inner hinner).position_ne_nil
    obtain ⟨index, position, hposition⟩ := List.exists_cons_of_ne_nil hne
    show [0] < 0 :: inner.position
    rw [hposition]
    exact List.cons_lt_cons_self.mpr (List.nil_lt_cons _ _)
  | .conditional body => (inOrder_typesOf body).inside _
  | .usingDirective _ => List.Pairwise.nil
  | .fileSpace _ => List.Pairwise.nil
  | .field _ => List.Pairwise.nil
  | .other => List.Pairwise.nil

/-- The types of a text are listed in its order, one before those in its body. -/
theorem inOrder_typesOf : ∀ declarations : List Declaration, InOrder (typesOf declarations)
  | [] => List.Pairwise.nil
  | first :: rest => by
    have hne : ∀ place ∈ typesOf rest, place.position ≠ [] := fun place hplace =>
      (standsIn_of_mem_typesOf rest place hplace).position_ne_nil
    refine List.pairwise_append.mpr
      ⟨inOrder_types first, (inOrder_typesOf rest).after hne first, ?_⟩
    intro earlier hearlier later hlater
    obtain ⟨inner, hearlier⟩ := exists_position_of_mem_types hearlier
    obtain ⟨place, hplace, rfl⟩ := List.mem_map.mp hlater
    obtain ⟨index, inner', hposition⟩ := List.exists_cons_of_ne_nil (hne place hplace)
    simp only [Place.after, hearlier, hposition, List.modifyHead_cons, List.cons_lt_cons_iff]
    exact Or.inl (Nat.succ_pos index)

end

end Backfield.Source
