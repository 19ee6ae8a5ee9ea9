import Backfield.Fragment
import Backfield.Text.Blank
import Backfield.Trace
import Backfield.Value

/-!
# Binding of names

Which type an attribute means.  An attribute is bound within the scope of the declaration
that it stands in: by a using alias, else in the enclosing namespaces from the innermost
outward, else through the using directives.  Only types that are known can be meant, so an
attribute that happens to share the marker's simple name does not bind to it.
-/

namespace Backfield

/-- The types of a compilation, by full name.  `others` holds the names that are no text: a
setting can put such a name there, and only that very name finds it again. -/
structure KnownTypes where
  names : List String := []
  others : List Value := []
  deriving DecidableEq, Repr

namespace KnownTypes

def ofNames (names : List String) : KnownTypes := ⟨names, []⟩

/-- A list or an object is no name, not even an unknown one. -/
def checkName : Value → Except Error Unit
  | .list _ => .error (.setting .notComparable)
  | .object _ => .error (.setting .notComparable)
  | _ => .ok ()

def addName (known : KnownTypes) (name : String) : KnownTypes :=
  if name ∈ known.names then known else { known with names := known.names ++ [name] }

/-- The known types and one more. -/
def add (known : KnownTypes) (name : Value) : Except Error KnownTypes := do
  checkName name
  match name with
  | .text s => return known.addName s
  | v => return { known with others := known.others ++ [v] }

/-- The type of this full name. -/
def find? (known : KnownTypes) (name : String) : Option String :=
  if name ∈ known.names then some name else none

/-- The identity behind a name that may be no text.  Nothing is never found. -/
def resolve? (known : KnownTypes) (name : Value) : Except Error (Option Value) := do
  checkName name
  match name with
  | .text s => return (known.find? s).map .text
  | .null => return none
  | v => return if v ∈ known.others then some v else none

end KnownTypes

namespace Binding

/-- What names a type whatever the scope. -/
def globalMark : String := "global::"

/-- What the name of an attribute's class may have at its end beyond the written name. -/
def attributeSuffix : String := "Attribute"

/-- A name as it is looked up: without type arguments, and without the global mark, whose
presence the flag tells. -/
structure WrittenName where
  isGlobal : Bool
  name : String
  deriving DecidableEq, Repr

/-- Reads the written name of an attribute.  Spaces and type arguments do not matter. -/
def WrittenName.ofText (written : String) : WrittenName :=
  let bare := (Text.dropSpaces written).toList.takeWhile (· != '<')
  if globalMark.toList.isPrefixOf bare then
    ⟨true, String.ofList (bare.drop globalMark.toList.length)⟩
  else ⟨false, String.ofList bare⟩

/-- The part of a name before its first dot, and what follows the dot. -/
def splitHead (name : String) : String × String :=
  (String.ofList (name.toList.takeWhile (· != '.')),
    String.ofList ((name.toList.dropWhile (· != '.')).drop 1))

/-- What follows each dot of a text, as long as something does. -/
def afterDots : List Char → List (List Char)
  | [] => []
  | c :: rest =>
    if c == '.' && !rest.isEmpty then rest :: afterDots rest else afterDots rest

/-- A namespace and those that enclose it, innermost first, without the global one. -/
def enclosingSpaces (space : String) : List String :=
  if space == "" then []
  else space :: (afterDots space.toList.reverse).map fun outer => String.ofList outer.reverse

/-- `base.name`. -/
def qualify (base name : String) : String := base ++ "." ++ name

/-- The first of the bases under which a type of the name is known. -/
def findUnder? (known : KnownTypes) (bases : List String) (name : String) : Option String :=
  bases.findSome? fun base => known.find? (qualify base name)

/-- The type that a name stands for in the scope of a fragment.  An alias in front hides
everything else. -/
def bindName? (known : KnownTypes) (fragment : Fragment) (isGlobal : Bool) (name : String) :
    Option String :=
  if isGlobal then known.find? name
  else
    let (head, rest) := splitHead name
    match fragment.aliases.target? head with
    | some target => known.find? (if rest == "" then target else qualify target rest)
    | none =>
      (findUnder? known (enclosingSpaces fragment.space) name).or
        ((known.find? name).or (findUnder? known fragment.usings name))

/-- The type that an attribute binds to.  The name with the suffix goes first. -/
def bindAttribute? (known : KnownTypes) (fragment : Fragment) (written : String) :
    Option String :=
  let name := WrittenName.ofText written
  (bindName? known fragment name.isGlobal (name.name ++ attributeSuffix)).or
    (bindName? known fragment name.isGlobal name.name)

/-- Binds an attribute and leaves a trace of it. -/
def bindAttribute (known : KnownTypes) (fragment : Fragment) (written : String) :
    Traced (Option String) := do
  let bound := bindAttribute? known fragment written
  if bound.isNone then
    Traced.log .debug .binding
      ("Attribute " ++ written ++ " on " ++ fragment.fullName ++ " does not resolve")
  Traced.emit .attributeBound
  return bound

/-- The type of a field as one line of text, unless it is unread or blank. -/
def fieldType? (typeText : Option String) : Option String :=
  (typeText.map Text.collapse).filter (· != "")

end Binding

end Backfield
