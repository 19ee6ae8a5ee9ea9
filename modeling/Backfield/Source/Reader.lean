import Backfield.CSharp.Declaration.Parser
import Backfield.Fragment
import Backfield.Source.UsingDirective
import Backfield.Trace

/-!
# Reading sources

The class fragments and the type names that a C# text declares.  A walk over its
declarations carries the scope along: the namespace, the enclosing types, and the using
directives so far.  What a body brings into scope ends with it.
-/

namespace Backfield.Source

open CSharp (Declaration TypeHead TypeKind FieldGroup SourceUnit)

/-- What surrounds a declaration. -/
structure Scope where
  space : String := ""
  containers : List String := []
  usings : List String := []
  aliases : Aliases := []
  deriving DecidableEq, Repr

/-- A namespace within another.  White space in its name does not count. -/
def joinSpaces (outer name : String) : String :=
  let name := Text.dropSpaces (Text.collapse name)
  if outer == "" then name else if name == "" then outer else outer ++ "." ++ name

namespace Scope

/-- Takes a using directive into scope.  A namespace that is there already stays where it
is; the last target of an alias counts. -/
def addDirective (scope : Scope) : UsingDirective → Scope
  | .statics => scope
  | .plain target =>
    if target ∈ scope.usings then scope else { scope with usings := scope.usings ++ [target] }
  | .aliased name target => { scope with aliases := scope.aliases.put name target }

/-- Takes a using directive as written into scope, if it can be read. -/
def addUsing (scope : Scope) (text : String) : Scope :=
  match UsingDirective.ofText? text with
  | some directive => scope.addDirective directive
  | none => scope

def enterSpace (scope : Scope) (name : String) : Scope :=
  { scope with space := joinSpaces scope.space name }

def enterType (scope : Scope) (name : String) : Scope :=
  { scope with containers := scope.containers ++ [name] }

/-- The full name of a type declared here, without type parameters. -/
def nameOf (scope : Scope) (name : String) : String :=
  joinNames (scope.space :: scope.containers ++ [name])

end Scope

/-! ## Classes and names -/

/-- What has been found: class fragments and full names of types, in document order. -/
structure Found where
  fragments : List Fragment := []
  names : List String := []
  deriving DecidableEq, Repr

def Found.append (a b : Found) : Found := ⟨a.fragments ++ b.fragments, a.names ++ b.names⟩

instance : Append Found := ⟨Found.append⟩

/-- The type of a field on one line, unless nothing of it could be read. -/
def typeText? (text : Option String) : Option String :=
  (text.map Text.collapse).filter (· != "")

/-- One field for each variable of a declaration. -/
def fieldsOf (group : FieldGroup) : List Field :=
  let attributes := (group.attributes.filter (· != "")).map Text.collapse
  let typeText := typeText? group.typeText
  (group.names.filter (· != "")).map fun name => ⟨name, typeText, attributes⟩

/-- The fields that a class declares itself. -/
def ownFields : List Declaration → List Field
  | [] => []
  | .field group :: rest => fieldsOf group ++ ownFields rest
  | _ :: rest => ownFields rest

/-- The fragment for a class in its scope. -/
def fragmentOf (path : String) (scope : Scope) (head : TypeHead) (body : List Declaration) :
    Fragment where
  name := head.name
  space := scope.space
  containers := scope.containers
  typeParameters := Text.collapse head.typeParameters
  accessibility := Accessibility.ofModifiers? head.modifiers
  fields := ownFields body
  usings := scope.usings
  aliases := scope.aliases
  path

/-- What a type itself adds, without the types inside it. -/
def foundHere (path : String) (scope : Scope) (head : TypeHead) (body : List Declaration) :
    Found where
  fragments := if head.kind = .isClass then [fragmentOf path scope head body] else []
  names := [scope.nameOf head.name]

/-- The scope after a declaration. -/
def scopeAfter (scope : Scope) : Declaration → Scope
  | .usingDirective text => scope.addUsing text
  | .fileSpace name => scope.enterSpace name
  | _ => scope

mutual

/-- What a declaration in a scope adds.  A type without a name is passed over with all in
it, and so is everything under an `#if`. -/
def visit (path : String) (scope : Scope) : Declaration → Found
  | .space name body => visitAll path (scope.enterSpace name) body
  | .type head body =>
    if head.name == "" then {}
    else foundHere path scope head body ++ visitAll path (scope.enterType head.name) body
  | .usingDirective _ => {}
  | .fileSpace _ => {}
  | .field _ => {}
  | .conditional _ => {}
  | .other => {}
termination_by structural declaration => declaration

/-- What successive declarations add, each in the scope that those before it leave. -/
def visitAll (path : String) (scope : Scope) : List Declaration → Found
  | [] => {}
  | declaration :: rest =>
    visit path scope declaration ++ visitAll path (scopeAfter scope declaration) rest
termination_by structural declarations => declarations

end

/-! ## Whole texts -/

/-- Warns of a text that is not all C#. -/
def warnOfProblem (path : String) (unit : SourceUnit) : Traced Unit :=
  match unit.firstProblem? with
  | none => return ()
  | some line =>
    Traced.log .warning .reader
      (path ++ " has syntax errors (first at line " ++ toString line ++
        "), reading what parses")

/-- What a text declares. -/
def read (code path : String) : Traced Found := do
  let unit := SourceUnit.ofText code
  warnOfProblem path unit
  return visitAll path {} unit.declarations

/-- The fragments of the classes that a text declares. -/
def readFragments (code path : String) : Traced (List Fragment) := do
  return (← read code path).fragments

/-- What a text is called that comes from no file. -/
def noPath : String := "<string>"

/-- The full names of the types that a text declares, each once. -/
def readNames (code : String) : Traced (List String) := do
  return (← read code noPath).names.eraseDups

/-- The first line on which a text is no C#. -/
def firstProblem? (code : String) : Option Nat := (SourceUnit.ofText code).firstProblem?

end Backfield.Source
