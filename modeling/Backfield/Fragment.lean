import Backfield.Accessibility

/-!
# Declaration fragments

One declaration of a class as it stands in a source: its place, its fields, and the using
directives in scope.  A partial class has several fragments that share a full name.
-/

namespace Backfield

/-- Using aliases: pairs of an alias and its target, each alias once, in order of first
appearance. -/
abbrev Aliases := List (String × String)

/-- Sets the target of an alias: one that is there keeps its place. -/
def Aliases.put (aliases : Aliases) (name target : String) : Aliases :=
  match aliases with
  | [] => [(name, target)]
  | entry :: rest =>
    if entry.1 == name then (name, target) :: rest
    else entry :: Aliases.put rest name target

/-- The aliases that a list of pairs sets one after the other. -/
def Aliases.ofList (pairs : List (String × String)) : Aliases :=
  pairs.foldl (fun aliases pair => aliases.put pair.1 pair.2) []

/-- The target of an alias. -/
def Aliases.target? (aliases : Aliases) (name : String) : Option String :=
  List.lookup name aliases

/-- A single field variable; a declaration of two variables has two. -/
structure Field where
  name : String
  /-- The declared type as written, if it could be read. -/
  typeText : Option String
  /-- The names of the attributes as written. -/
  attributes : List String
  deriving DecidableEq, Repr

structure Fragment where
  name : String
  space : String := ""
  /-- The names of the enclosing types, outermost first. -/
  containers : List String := []
  /-- The list of type parameters as written, angle brackets included. -/
  typeParameters : String := ""
  accessibility : Option Accessibility := none
  fields : List Field := []
  usings : List String := []
  aliases : Aliases := []
  path : String := ""
  deriving DecidableEq, Repr

/-- Joins the parts of a name with dots, without those that are empty. -/
def joinNames (parts : List String) : String :=
  ".".intercalate (parts.filter (· != ""))

namespace Fragment

/-- The name of the class with its namespace, enclosing types and type parameters. -/
def fullName (f : Fragment) : String :=
  ".".intercalate ((f.space :: f.containers).filter (· != "") ++ [f.name ++ f.typeParameters])

def isNested (f : Fragment) : Bool := !f.containers.isEmpty

/-- Two reports of one declaration: they agree on all but the using aliases. -/
def sameReport (f g : Fragment) : Bool :=
  decide ({ f with aliases := [] } = { g with aliases := [] })

end Fragment

end Backfield
