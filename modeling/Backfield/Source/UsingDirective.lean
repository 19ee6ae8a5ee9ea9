import Backfield.Text.Blank
import Backfield.Text.CharClass

/-!
# Using directives

What a using directive brings into scope: a namespace, or an alias for a type.  A directive
is read from its text with white space collapsed, so what matters is where its spaces are.
-/

namespace Backfield

/-- What a using directive brings into scope. -/
inductive UsingDirective
  /-- The members of a type, which are no types. -/
  | statics
  | plain (target : String)
  | aliased (name target : String)
  deriving DecidableEq, Repr

namespace UsingDirective

/-- The rest of a text after a word and a space. -/
def afterWord? (word : String) (text : List Char) : Option (List Char) :=
  let mark := word.toList ++ [' ']
  if mark.isPrefixOf text then some (text.drop mark.length) else none

/-- The target as it is looked up: without spaces, and without the mark of the global
namespace. -/
def targetOf (text : List Char) : String :=
  let bare := text.filter (· != ' ')
  let mark := "global::".toList
  String.ofList (if mark.isPrefixOf bare then bare.drop mark.length else bare)

/-- The text before a semicolon at the end.  It is not empty and has no other semicolon. -/
def beforeEnd? (text : List Char) : Option (List Char) :=
  match text.reverse with
  | ';' :: before =>
    let name := before.dropWhile Text.isBlank
    if before.isEmpty || before.contains ';' then none
    else if name.isEmpty then some before.reverse
    else some name.reverse
  | _ => none

/-- An alias before an equals sign: its name, and what follows the sign. -/
def aliasName? (text : List Char) : Option (String × List Char) :=
  let name := text.takeWhile Text.isWordChar
  match (text.dropWhile Text.isWordChar).dropWhile Text.isBlank with
  | '=' :: rest =>
    if name.isEmpty then none else some (String.ofList name, rest)
  | _ => none

/-- What follows the keywords of a directive that is not static. -/
def ofTarget? (text : List Char) : Option UsingDirective :=
  let whole := (beforeEnd? text).map fun target => plain (targetOf target)
  match aliasName? text with
  | none => whole
  | some (name, rest) =>
    match beforeEnd? rest with
    | some target => some (aliased name (targetOf target))
    | none => whole

/-- Reads a directive whose white space is collapsed. -/
def ofChars? (text : List Char) : Option UsingDirective := do
  let text := (afterWord? "global" text).getD text
  let rest ← afterWord? "using" text
  match afterWord? "static" rest with
  | some target => if (ofTarget? target).isSome then some statics else ofTarget? rest
  | none => ofTarget? rest

/-- Reads a directive as it is written. -/
def ofText? (text : String) : Option UsingDirective := ofChars? (Text.collapse text).toList

end UsingDirective

end Backfield
