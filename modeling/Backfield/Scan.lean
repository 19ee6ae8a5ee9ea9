import Backfield.Binding
import Backfield.Property
import Backfield.PropertyName
import Backfield.Settings

/-!
# Scanning for marked fields

Which classes get properties.  Fragments are grouped by the full name of their class, and
each group with a marked field becomes a `ReactiveClass`.  A field is marked if exactly one
of its attributes binds to the marker.
-/

namespace Backfield.Scan

/-! ## Groups of fragments -/

/-- The distinct fragments of one class, of which there is at least one. -/
structure Group where
  key : String
  first : Fragment
  more : List Fragment
  deriving DecidableEq, Repr

def Group.fragments (g : Group) : List Fragment := g.first :: g.more

/-- Adds a fragment unless the same declaration has been reported before. -/
def Group.add (g : Group) (f : Fragment) : Group :=
  if g.fragments.any f.sameReport then g else { g with more := g.more ++ [f] }

/-- Puts a fragment into the group of its class; a class not seen before comes last. -/
def addToGroups (f : Fragment) : List Group → List Group
  | [] => [⟨f.fullName, f, []⟩]
  | g :: rest => if g.key == f.fullName then g.add f :: rest else g :: addToGroups f rest

/-- The groups of a list of fragments, in order of first appearance. -/
def group (fragments : List Fragment) : List Group :=
  fragments.foldl (fun groups f => addToGroups f groups) []

/-! ## Marked fields -/

/-- The number of attributes that bind to the marker.  All of them are bound. -/
def countMarks (known : KnownTypes) (fragment : Fragment) (marker : Value) :
    List String → Traced Nat
  | [] => return 0
  | written :: rest => do
    let bound ← Binding.bindAttribute known fragment written
    let others ← countMarks known fragment marker rest
    return (if bound.map Value.text = some marker then 1 else 0) + others

/-- The field carries the marker exactly once. -/
def isMarked (known : KnownTypes) (fragment : Fragment) (marker : Value) (field : Field) :
    Traced Bool := do
  let marks ← countMarks known fragment marker field.attributes
  if 1 < marks then
    Traced.log .warning .scan
      (fragment.fullName ++ "." ++ field.name ++ " carries the marker " ++ toString marks ++
        " times, skipping it")
  return marks == 1

/-- The property name for a marked field, unless it is the field's own name. -/
def nameProperty (className : String) (field : Field) : Traced (Option String) :=
  if field.name == "" then Traced.fail .emptyFieldName
  else
    let name := propertyName field.name
    if name == field.name && 1 < name.length then do
      Traced.log .warning .scan
        ("Skipping " ++ className ++ "." ++ field.name ++
          ": the generated property would have the same name as the field")
      return none
    else return some name

/-- The property for a field of a fragment, if the field is to have one. -/
def property? (known : KnownTypes) (marker : Value) (className : String)
    (accessibility : Accessibility) (fragment : Fragment) (field : Field) :
    Traced (Option Property) := do
  if !(← isMarked known fragment marker field) then return none
  match Binding.fieldType? field.typeText with
  | none =>
    Traced.log .debug .scan
      ("Skipping " ++ className ++ "." ++ field.name ++ ": field type does not resolve")
    return none
  | some type =>
    match ← nameProperty className field with
    | none => return none
    | some name =>
      let p ← Traced.lift (Property.check ⟨field.name, name, accessibility, type⟩)
      return some p

/-- The properties for the fields of a class, each beside its fragment.  `seen` holds the
names of the fields that have a property already: a later field of that name is passed
over unread. -/
def propertiesFrom (known : KnownTypes) (marker : Value) (className : String)
    (accessibility : Accessibility) :
    (seen : List String) → List (Fragment × Field) → Traced (List Property)
  | _, [] => return []
  | seen, (fragment, field) :: rest =>
    if field.name ∈ seen then
      propertiesFrom known marker className accessibility seen rest
    else do
      match ← property? known marker className accessibility fragment field with
      | none => propertiesFrom known marker className accessibility seen rest
      | some p =>
        let others ←
          propertiesFrom known marker className accessibility (field.name :: seen) rest
        return p :: others

/-! ## Classes -/

/-- The first accessibility that a fragment declares, else that of a class without any:
private inside another type, internal elsewhere. -/
def accessibilityOf (first : Fragment) (more : List Fragment) : Accessibility :=
  ((first :: more).findSome? (·.accessibility)).getD
    (if first.isNested then .isPrivate else .isInternal)

/-- What the using directives of the fragments name: first the namespaces, then the
aliases, nothing twice. -/
def usingsOf (fragments : List Fragment) : List String :=
  let plain := fragments.flatMap (·.usings)
  let aliases := fragments.flatMap fun f => f.aliases.map fun a => a.1 ++ " = " ++ a.2
  (plain ++ aliases).eraseDups

/-- All fields of the fragments, each beside its fragment. -/
def fieldsOf (fragments : List Fragment) : List (Fragment × Field) :=
  fragments.flatMap fun f => f.fields.map fun field => (f, field)

/-- The class of a group, if a field of it gets a property.  What belongs to the class as a
whole is taken from the first fragment. -/
def classOf? (known : KnownTypes) (marker : Value) (g : Group) :
    Traced (Option ReactiveClass) := do
  let first := g.first
  let accessibility := accessibilityOf first g.more
  let properties ←
    propertiesFrom known marker first.fullName accessibility [] (fieldsOf g.fragments)
  if properties.isEmpty then return none
  let count := properties.length
  Traced.log .debug .scan
    (first.fullName ++ ": " ++ toString count ++ " reactive propert" ++
      (if count == 1 then "y" else "ies"))
  let c ← Traced.lift <| ReactiveClass.check {
    name := first.name
    space := first.space
    fullName := first.fullName
    accessibility
    properties
    typeParameters := first.typeParameters
    containers := first.containers
    usings := usingsOf g.fragments }
  return some c

/-- The classes of the groups, in order, with a checkpoint before each group. -/
def classesOf (known : KnownTypes) (marker : Value) : List Group → Traced (List ReactiveClass)
  | [] => return []
  | g :: rest => do
    Traced.checkpoint
    let found ← classOf? known marker g
    let others ← classesOf known marker rest
    return found.toList ++ others

/-- The classes with properties, in order of first appearance.  Without the marker there
are none. -/
def scan (settings : Settings) (known : KnownTypes) (fragments : List Fragment) :
    Traced (List ReactiveClass) := do
  match ← Traced.lift (known.resolve? settings.markerFullName) with
  | none =>
    Traced.log .warning .scan
      ("Marker type " ++ settings.markerFullName.display ++
        " is not available, nothing to generate")
    return []
  | some marker => classesOf known marker (group fragments)

end Backfield.Scan
