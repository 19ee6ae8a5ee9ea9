import Backfield.Proofs.Scan.FullNames
import Backfield.Proofs.Source.Directives
import Backfield.Proofs.Source.Positions
import Backfield.Proofs.Source.Sites

/-!
# Lexical scope

The reader carries one scope through a text.  What it has at a type depends on what bears on the
type there, and on nothing else.

* `visitAll_eq` says that the reader finds the types that it sees, one after the other, each in
  the scope of what bears on it.
* `enterAll_eq` says what this scope is: its namespaces, types, usings and aliases are each told by
  what bears on the type, in the order of the text.
* `readFragments_scopes` puts both together for a text.  A using directive among the members of a
  type counts for the types after it like one in a namespace (`usings_typeBodySource`).
-/

namespace Backfield

/-! ## Aliases set one after the other -/

/-- A last element stays unless it is there already. -/
theorem Scan.eraseDups_concat {α : Type} [BEq α] [LawfulBEq α] (xs : List α) (x : α) :
    (xs ++ [x]).eraseDups = if x ∈ xs.eraseDups then xs.eraseDups else xs.eraseDups ++ [x] := by
  rw [List.eraseDups, Scan.eraseDupsBy_concat, ← List.eraseDups]
  simp

namespace Aliases

theorem map_fst_put (aliases : Aliases) (name target : String) :
    (aliases.put name target).map Prod.fst =
      if name ∈ aliases.map Prod.fst then aliases.map Prod.fst
      else aliases.map Prod.fst ++ [name] := by
  induction aliases with
  | nil => simp [put]
  | cons entry rest ih =>
    rw [put]
    by_cases hname : entry.1 = name
    · simp [hname]
    · have hne : name ≠ entry.1 := Ne.symm hname
      rw [if_neg (by simpa using hname), List.map_cons, ih, List.map_cons]
      by_cases hmem : name ∈ rest.map Prod.fst
      · rw [if_pos hmem, if_pos (List.mem_cons_of_mem _ hmem)]
      · rw [if_neg hmem, if_neg (by simp only [List.mem_cons, hne, hmem, or_self, not_false_iff]),
          List.cons_append]

theorem target?_cons (entry : String × String) (rest : Aliases) (name : String) :
    target? (entry :: rest) name = if name = entry.1 then some entry.2 else rest.target? name := by
  rw [target?, List.lookup_cons]
  by_cases hname : name = entry.1
  · simp [hname]
  · have hne : (name == entry.1) = false := beq_eq_false_iff_ne.mpr hname
    rw [hne, if_neg hname]
    rfl

theorem target?_put (aliases : Aliases) (name target name' : String) :
    (aliases.put name target).target? name' =
      if name' = name then some target else aliases.target? name' := by
  induction aliases with
  | nil => exact target?_cons (name, target) [] name'
  | cons entry rest ih =>
    rw [put]
    by_cases hentry : entry.1 = name
    · rw [if_pos (beq_iff_eq.mpr hentry), target?_cons, target?_cons, hentry]
      split
      · rfl
      · rfl
    · rw [if_neg (by simpa using hentry), target?_cons, target?_cons, ih]
      by_cases hname : name' = name
      · rw [if_neg (fun heq => hentry (heq.symm.trans hname)), if_pos hname, if_pos hname]
      · rw [if_neg hname, if_neg hname]

theorem ofList_concat (pairs : List (String × String)) (pair : String × String) :
    ofList (pairs ++ [pair]) = (ofList pairs).put pair.1 pair.2 := by
  rw [ofList, List.foldl_concat]
  rfl

/-- The aliases that are set are there once each, in the order in which they are first set. -/
theorem map_fst_ofList (pairs : List (String × String)) :
    (ofList pairs).map Prod.fst = (pairs.map Prod.fst).eraseDups := by
  induction pairs using List.reverseRecOn with
  | nil => rfl
  | append_singleton pairs pair ih =>
    rw [ofList_concat, map_fst_put, ih, List.map_append, List.map_singleton,
      Scan.eraseDups_concat]

/-- The target that is set last counts. -/
theorem target?_ofList (pairs : List (String × String)) (name : String) :
    (ofList pairs).target? name = target? pairs.reverse name := by
  induction pairs using List.reverseRecOn with
  | nil => rfl
  | append_singleton pairs pair ih =>
    rw [ofList_concat, target?_put, ih, List.reverse_append, List.reverse_singleton,
      List.singleton_append, target?_cons]

end Aliases

namespace Source

open CSharp (Declaration SourceUnit TypeHead)

/-! ## One scope -/

namespace Bearing

/-- The namespace is entered by this name. -/
def space? : Bearing → Option String
  | .space name => some (Text.dropSpaces (Text.collapse name))
  | _ => none

def type? : Bearing → Option String
  | .type name => some name
  | _ => none

/-- The using directive as it is read. -/
def directive? : Bearing → Option UsingDirective
  | .directive text => UsingDirective.ofText? text
  | _ => none

/-- The namespace that is brought into scope. -/
def plain? (b : Bearing) : Option String := b.directive?.bind UsingDirective.plain?

/-- The alias that is brought into scope. -/
def alias? (b : Bearing) : Option (String × String) := b.directive?.bind UsingDirective.alias?

end Bearing

namespace Scope

/-- The scope after something that bears on what follows. -/
def enter (scope : Scope) : Bearing → Scope
  | .directive text => scope.addUsing text
  | .space name => scope.enterSpace name
  | .type name => scope.enterType name
  | .conditional => scope

/-- The scope after all that bears on a declaration. -/
def enterAll (scope : Scope) (around : List Bearing) : Scope := around.foldl enter scope

theorem enterAll_concat (scope : Scope) (around : List Bearing) (b : Bearing) :
    scope.enterAll (around ++ [b]) = (scope.enterAll around).enter b := by
  rw [enterAll, List.foldl_concat]
  rfl

theorem scopeAfter_eq (scope : Scope) (declaration : Declaration) :
    scopeAfter scope declaration = scope.enterAll (leaves declaration) := by
  cases declaration <;>
    simp only [scopeAfter, leaves, enterAll, enter, List.foldl_cons, List.foldl_nil]

end Scope

/-- A name joined to joined names. -/
theorem joinSpaces_joinNames (names : List String) (name : String) :
    joinSpaces (joinNames names) name =
      joinNames (names ++ [Text.dropSpaces (Text.collapse name)]) := by
  rw [joinSpaces]
  generalize Text.dropSpaces (Text.collapse name) = last
  by_cases hlast : last = ""
  · have hsame : joinNames (names ++ [last]) = joinNames names := by simp [joinNames, hlast]
    rw [hsame]
    by_cases hempty : joinNames names = ""
    · simp [hempty, hlast]
    · simp [hempty, hlast]
  · rw [joinNames_concat names hlast, Scan.qualifiedName]
    by_cases hempty : joinNames names = ""
    · simp [hempty]
    · simp [hempty, hlast]

/-- The scope where these bear on a declaration. -/
def scopeOf (around : List Bearing) : Scope where
  space := joinNames (around.filterMap Bearing.space?)
  containers := around.filterMap Bearing.type?
  usings := (around.filterMap Bearing.plain?).eraseDups
  aliases := Aliases.ofList (around.filterMap Bearing.alias?)

theorem filterMap_concat {α β : Type} (f : α → Option β) (xs : List α) (x : α) :
    (xs ++ [x]).filterMap f = xs.filterMap f ++ (f x).toList := by
  rw [List.filterMap_append]
  cases hx : f x with
  | none => simp [hx]
  | some y => simp [hx]

/-- A directive adds what it brings into scope. -/
theorem scopeOf_directive (around : List Bearing) (text : String) :
    scopeOf (around ++ [.directive text]) = (scopeOf around).addUsing text := by
  unfold Scope.addUsing
  simp only [scopeOf, filterMap_concat, Bearing.space?, Bearing.type?, Bearing.plain?,
    Bearing.alias?, Bearing.directive?, Option.toList_none, List.append_nil]
  cases UsingDirective.ofText? text with
  | none => simp
  | some directive =>
    cases directive with
    | statics => simp [UsingDirective.plain?, UsingDirective.alias?, Scope.addDirective]
    | plain target =>
      simp only [Option.bind_some, UsingDirective.plain?, UsingDirective.alias?,
        Option.toList_some, Option.toList_none, List.append_nil, Scope.addDirective,
        Scan.eraseDups_concat]
      split
      · rfl
      · rfl
    | aliased name target =>
      simp [UsingDirective.plain?, UsingDirective.alias?, Scope.addDirective,
        Aliases.ofList_concat]

theorem scopeOf_concat (around : List Bearing) (b : Bearing) :
    scopeOf (around ++ [b]) = (scopeOf around).enter b := by
  cases b with
  | directive text => exact scopeOf_directive around text
  | space name =>
    simp only [scopeOf, filterMap_concat, Scope.enter, Scope.enterSpace, joinSpaces_joinNames,
      Bearing.space?, Bearing.type?, Bearing.plain?, Bearing.alias?, Bearing.directive?,
      Option.bind_none, Option.toList_some, Option.toList_none, List.append_nil]
  | type name =>
    simp only [scopeOf, filterMap_concat, Scope.enter, Scope.enterType, Bearing.space?,
      Bearing.type?, Bearing.plain?, Bearing.alias?, Bearing.directive?, Option.bind_none,
      Option.toList_some, Option.toList_none, List.append_nil]
  | conditional =>
    simp only [scopeOf, filterMap_concat, Scope.enter, Bearing.space?, Bearing.type?,
      Bearing.plain?, Bearing.alias?, Bearing.directive?, Option.bind_none, Option.toList_none,
      List.append_nil]

/-- The scope at a declaration is told by what bears on it. -/
theorem enterAll_eq (around : List Bearing) : ({} : Scope).enterAll around = scopeOf around := by
  induction around using List.reverseRecOn with
  | nil => rfl
  | append_singleton around b ih => rw [Scope.enterAll_concat, ih, scopeOf_concat]

/-! ## Types that are read -/

/-- Whatever this bears on is passed over. -/
def Bearing.isHidden : Bearing → Bool
  | .conditional => true
  | .type name => name == ""
  | _ => false

namespace Place

/-- The reader sees a type with a name, unless it is passed over with what is around it. -/
def isSeen (place : Place) : Bool :=
  place.head.name != "" && place.around.all fun b => !b.isHidden

def isClass (place : Place) : Bool := place.head.kind = .isClass

/-- The fragment of a class that stands at this place. -/
def fragment (path : String) (scope : Scope) (place : Place) : Fragment :=
  fragmentOf path (scope.enterAll place.around) place.head place.body

/-- The full name of a type that stands at this place. -/
def fullName (scope : Scope) (place : Place) : String :=
  (scope.enterAll place.around).nameOf place.head.name

end Place

/-- What the reader makes of places: fragments and names of those it sees. -/
def found (path : String) (scope : Scope) (places : List Place) : Found where
  fragments := ((places.filter Place.isSeen).filter Place.isClass).map (Place.fragment path scope)
  names := (places.filter Place.isSeen).map (Place.fullName scope)

section

variable (path : String) (scope : Scope)

theorem found_append (places more : List Place) :
    found path scope (places ++ more) = found path scope places ++ found path scope more := by
  simp only [found, List.filter_append, List.map_append]
  rfl

theorem found_map (change : Place → Place) (scope' : Scope)
    (hseen : ∀ place, (change place).isSeen = place.isSeen)
    (hclass : ∀ place, (change place).isClass = place.isClass)
    (hfragment : ∀ place, (change place).fragment path scope = place.fragment path scope')
    (hname : ∀ place, (change place).fullName scope = place.fullName scope')
    (places : List Place) :
    found path scope (places.map change) = found path scope' places := by
  have hseen' : Place.isSeen ∘ change = Place.isSeen := funext hseen
  have hclass' : Place.isClass ∘ change = Place.isClass := funext hclass
  have hfragment' : Place.fragment path scope ∘ change = Place.fragment path scope' :=
    funext hfragment
  have hname' : Place.fullName scope ∘ change = Place.fullName scope' := funext hname
  simp only [found, List.filter_map, List.map_map, hseen', hclass', hfragment', hname']

/-- The body of a declaration that is not passed over is read in the scope that it opens. -/
theorem found_inside {opener : Bearing} (h : opener.isHidden = false) (places : List Place) :
    found path scope (places.map (Place.inside opener)) = found path (scope.enter opener) places := by
  refine found_map path scope (Place.inside opener) (scope.enter opener) (fun place => ?_)
    (fun _ => rfl) (fun _ => rfl) (fun _ => rfl) places
  simp [Place.isSeen, Place.inside, h]

theorem found_hidden {opener : Bearing} (h : opener.isHidden = true) (places : List Place) :
    found path scope (places.map (Place.inside opener)) = {} := by
  have hnone : (places.map (Place.inside opener)).filter Place.isSeen = [] := by
    rw [List.filter_eq_nil_iff]
    intro place hplace
    obtain ⟨inner, -, rfl⟩ := List.mem_map.mp hplace
    simp [Place.isSeen, Place.inside, h]
  simp only [found, hnone, List.filter_nil, List.map_nil]

theorem found_here (head : TypeHead) (body : List Declaration) :
    found path scope [⟨[0], [], head, body⟩] =
      if head.name == "" then {} else foundHere path scope head body := by
  by_cases hname : head.name = ""
  · simp [found, Place.isSeen, hname]
  · by_cases hclass : head.kind = .isClass
    · simp [found, Place.isSeen, Place.isClass, Place.fragment, Place.fullName, Scope.enterAll,
        foundHere, hname, hclass]
    · simp [found, Place.isSeen, Place.isClass, Place.fullName, Scope.enterAll, foundHere, hname,
        hclass]

theorem found_after (first : Declaration) (places : List Place) :
    found path scope (places.map (Place.after first)) = found path (scopeAfter scope first) places := by
  have henter : ∀ around : List Bearing, scope.enterAll (leaves first ++ around) =
      (scopeAfter scope first).enterAll around := by
    intro around
    rw [Scope.scopeAfter_eq, Scope.enterAll, List.foldl_append]
    rfl
  refine found_map path scope (Place.after first) (scopeAfter scope first) (fun place => ?_)
    (fun _ => rfl) (fun place => ?_) (fun place => ?_) places
  · cases first <;> simp [Place.isSeen, Place.after, leaves, Bearing.isHidden]
  · simp only [Place.fragment, Place.after, henter]
  · simp only [Place.fullName, Place.after, henter]

end

mutual

theorem visit_eq (path : String) (scope : Scope) :
    ∀ declaration : Declaration, visit path scope declaration = found path scope (types declaration)
  | .space name body => by
    rw [visit, types, found_inside path scope rfl, visitAll_eq path _ body]
    rfl
  | .type head body => by
    rw [visit, types, ← List.singleton_append, found_append, found_here]
    split
    · rename_i hname
      have hhidden : (Bearing.type head.name).isHidden = true := hname
      rw [found_hidden path scope hhidden]
      rfl
    · rename_i hname
      have hopen : (Bearing.type head.name).isHidden = false := Bool.eq_false_iff.mpr hname
      rw [found_inside path scope hopen, visitAll_eq path _ body]
      rfl
  | .conditional body => by
    rw [visit, types, found_hidden path scope rfl]
  | .usingDirective _ => rfl
  | .fileSpace _ => rfl
  | .field _ => rfl
  | .other => rfl

/-- The reader finds the types of a text that it sees, each in its scope. -/
theorem visitAll_eq (path : String) (scope : Scope) :
    ∀ declarations : List Declaration,
      visitAll path scope declarations = found path scope (typesOf declarations)
  | [] => rfl
  | first :: rest => by
    rw [visitAll, typesOf, found_append, visit_eq path scope first, visitAll_eq path _ rest,
      found_after]

end

/-! ## Whole texts -/

namespace Place

/-- The full name of a type, told by where it stands. -/
def dottedName (place : Place) : String :=
  joinNames (joinNames (place.around.filterMap Bearing.space?) ::
    place.around.filterMap Bearing.type? ++ [place.head.name])

theorem fullName_eq (place : Place) : place.fullName {} = place.dottedName := by
  rw [fullName, enterAll_eq]
  rfl

/-- What the fragment of a class says, told by where the class stands. -/
structure IsReadAs (path : String) (place : Place) (f : Fragment) : Prop where
  name : f.name = place.head.name
  space : f.space = joinNames (place.around.filterMap Bearing.space?)
  containers : f.containers = place.around.filterMap Bearing.type?
  usings : f.usings = (place.around.filterMap Bearing.plain?).eraseDups
  aliasNames : f.aliases.map Prod.fst =
    ((place.around.filterMap Bearing.alias?).map Prod.fst).eraseDups
  /-- The target that is set last counts. -/
  targets : ∀ name, f.aliases.target? name =
    Aliases.target? (place.around.filterMap Bearing.alias?).reverse name
  typeParameters : f.typeParameters = Text.collapse place.head.typeParameters
  accessibility : f.accessibility = Accessibility.ofModifiers? place.head.modifiers
  fields : f.fields = ownFields place.body
  path : f.path = path

theorem isReadAs_fragment (path : String) (place : Place) :
    place.IsReadAs path (place.fragment path {}) := by
  rw [fragment, enterAll_eq]
  exact {
    name := rfl
    space := rfl
    containers := rfl
    usings := rfl
    aliasNames := Aliases.map_fst_ofList _
    targets := Aliases.target?_ofList _
    typeParameters := rfl
    accessibility := rfl
    fields := rfl
    path := rfl }

end Place

/-- The classes of a text that the reader sees, in the order of the text. -/
def classesIn (code : String) : List Place :=
  ((typesOf (SourceUnit.ofText code).declarations).filter Place.isSeen).filter Place.isClass

theorem fragmentsIn_eq (code path : String) :
    fragmentsIn code path = (classesIn code).map (Place.fragment path {}) := by
  rw [fragmentsIn, visitAll_eq, found, classesIn]

theorem mem_classesIn_iff {code : String} {place : Place} :
    place ∈ classesIn code ↔
      place.StandsIn (SourceUnit.ofText code).declarations ∧ place.isSeen = true ∧
        place.isClass = true := by
  rw [classesIn, List.mem_filter, List.mem_filter, mem_typesOf_iff, and_assoc]

theorem forall₂_isReadAs (code path : String) :
    List.Forall₂ (Place.IsReadAs path) (classesIn code) (fragmentsIn code path) := by
  rw [fragmentsIn_eq, List.forall₂_map_right_iff, List.forall₂_same]
  exact fun place _ => place.isReadAs_fragment path

theorem outcome_read (code path : String) :
    (read code path).outcome =
      .ok (visitAll path {} (SourceUnit.ofText code).declarations) := by
  have hwarn : (warnOfProblem path (SourceUnit.ofText code)).outcome = .ok () := by
    unfold warnOfProblem
    split <;> rfl
  simp [read, hwarn, Except.bind]

theorem outcome_readNames (code : String) :
    (readNames code).outcome =
      .ok (visitAll noPath {} (SourceUnit.ofText code).declarations).names.eraseDups := by
  simp [readNames, outcome_read, Except.bind]

/-- A text gives one fragment for each class, in the order of the text, with the namespace, the
enclosing types, the namespaces in scope and the aliases of the place where the class stands; and
the full names of all its types.  The directives that bear on a place are those before it in the
same body or in one that is around it. -/
theorem readFragments_scopes (code path : String) :
    ∃ classes fragments names,
      (readFragments code path).outcome = .ok fragments ∧
      (readNames code).outcome = .ok names ∧
      InOrder classes ∧
      (∀ place, place ∈ classes ↔ place.StandsIn (SourceUnit.ofText code).declarations ∧
        place.isSeen = true ∧ place.isClass = true) ∧
      List.Forall₂ (Place.IsReadAs path) classes fragments ∧
      (∀ place ∈ classes, ∀ front text, (∃ back, place.around = front ++ .directive text :: back) ↔
        ∃ earlier, Precedes earlier place.position ∧
          Stands (SourceUnit.ofText code).declarations earlier front (.usingDirective text)) ∧
      names.Nodup ∧
      ∀ name, name ∈ names ↔
        ∃ place : Place, place.StandsIn (SourceUnit.ofText code).declarations ∧
          place.isSeen = true ∧ name = place.dottedName := by
  refine ⟨classesIn code, fragmentsIn code path, _, outcome_readFragments code path,
    outcome_readNames code, ?_, fun place => mem_classesIn_iff, forall₂_isReadAs code path, ?_,
    Scan.nodup_eraseDups _, fun name => ?_⟩
  · exact List.Pairwise.filter _ (List.Pairwise.filter _ (inOrder_typesOf _))
  · intro place hplace front text
    exact (mem_classesIn_iff.mp hplace).1.directive_iff
  · rw [List.mem_eraseDups, visitAll_eq, found, List.mem_map]
    constructor
    · rintro ⟨place, hplace, rfl⟩
      obtain ⟨hmem, hseen⟩ := List.mem_filter.mp hplace
      exact ⟨place, mem_typesOf_iff.mp hmem, hseen, place.fullName_eq⟩
    · rintro ⟨place, hplace, hseen, rfl⟩
      exact ⟨place, List.mem_filter.mpr ⟨mem_typesOf_iff.mpr hplace, hseen⟩, place.fullName_eq⟩

/-- A using directive among the members of a type. -/
def typeBodySource : String := "class A \x7b using N; class B \x7b \x7d \x7d\n"

/-- It counts for the types after it, though it stands in no namespace. -/
theorem usings_typeBodySource :
    (SourceUnit.ofText typeBodySource).problems = [] ∧
      ((classesIn typeBodySource).map fun place => (place.head.name, place.around)) =
        [("A", []), ("B", [.type "A", .directive "using N;"])] ∧
      ((fragmentsIn typeBodySource noPath).map fun f => (f.name, f.usings)) =
        [("A", []), ("B", ["N"])] := by
  decide +kernel

end Source

end Backfield
