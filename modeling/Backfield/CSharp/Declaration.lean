/-!
# Declarations

What a C# text declares, as far as it matters to a reader of classes and fields: the tree
of using directives, namespaces, types and fields.  Everything else that may stand among
declarations is `other`.
-/

namespace Backfield.CSharp

/-- The kinds of types that are declared with a name of their own. -/
inductive TypeKind
  | isClass
  | isStruct
  | isInterface
  | isRecord
  | isEnum
  | isDelegate
  deriving DecidableEq, Repr

/-- What comes before the body of a type. -/
structure TypeHead where
  kind : TypeKind
  modifiers : List String
  /-- The name, empty if it is missing. -/
  name : String
  /-- The list of type parameters as written, or empty. -/
  typeParameters : String := ""
  deriving DecidableEq, Repr

/-- A declaration of variables of one type. -/
structure FieldGroup where
  /-- The names of the attributes as written. -/
  attributes : List String
  /-- The type as written, unless something is wrong in it. -/
  typeText : Option String
  names : List String
  deriving DecidableEq, Repr

inductive Declaration
  /-- A using directive as written, from its first word to the semicolon. -/
  | usingDirective (text : String)
  /-- A namespace around the declarations in its body. -/
  | space (name : String) (body : List Declaration)
  /-- A namespace for the rest of the file. -/
  | fileSpace (name : String)
  | type (head : TypeHead) (body : List Declaration)
  | field (group : FieldGroup)
  /-- All branches of an `#if`, one after the other. -/
  | conditional (body : List Declaration)
  | other
  deriving Repr

end Backfield.CSharp
