import Backfield.CSharp.Declaration
import Backfield.CSharp.TypeName

/-!
# Heads of declarations

What stands before the body of a declaration: attributes, modifiers, and the rest of the
head of a type.  Each function reads from the front of the trees and says what is left and
on which lines something is wrong or missing.
-/

namespace Backfield.CSharp.Declaration

open Backfield.CSharp.TypeName (missedLine isName isTypeWord)

/-! ## Attributes -/

/-- Names of attributes, what is left after them, and what is wrong. -/
structure Attributes where
  names : List String := []
  rest : List Tree := []
  problems : List Nat := []

/-- What an attribute can be said to apply to. -/
def attributeTargets : List String :=
  ["assembly", "module", "field", "event", "method", "param", "property", "return", "type"]

/-- Drops the target before the attributes of a list. -/
def dropTarget : List Tree → List Tree × List Nat
  | target :: colon :: rest =>
    if target.word?.isSome && colon.isSymbol ":" then
      (rest, if target.word?.any attributeTargets.contains then [] else [target.first.line])
    else (target :: colon :: rest, [])
  | trees => (trees, [])

/-- Passes over the arguments of an attribute. -/
def afterArguments : List Tree → List Tree
  | [] => []
  | tree :: rest => if tree.isGroup "(" then rest else tree :: rest

/-- The attributes of a list, with the trees between its brackets.  What is no attribute is
passed over up to the next comma. -/
def attributeItems (last : Nat) : (fuel : Nat) → List Tree → Attributes
  | 0, _ => {}
  | _, [] => {}
  | fuel + 1, trees =>
    let item :=
      match TypeName.dotted? last trees with
      | some r =>
        { names := [Tree.text (r.taken trees)], rest := afterArguments r.rest,
          problems := r.problems : Attributes }
      | none => { rest := trees }
    match item.rest with
    | [] => item
    | next :: rest =>
      if next.isSymbol "," && !item.names.isEmpty then
        let others := attributeItems last fuel rest
        { others with
          names := item.names ++ others.names
          problems := item.problems ++ others.problems }
      else
        let others := attributeItems last fuel (((next :: rest).dropWhile (!·.isSymbol ",")).drop 1)
        { others with
          names := item.names ++ others.names
          problems := item.problems ++ next.first.line :: others.problems }

/-- The attributes between square brackets. -/
def attributeList (last : Nat) (items : List Tree) : Attributes :=
  let (items, problems) := dropTarget items
  if items.isEmpty then { problems := [last] }
  else
    let found := attributeItems last items.length items
    { found with problems := problems ++ found.problems }

/-- The attributes of a list whose closing bracket is missing.  It is missed after the last
attribute that can be read. -/
def openAttributeList (last : Nat) : (fuel : Nat) → List Tree → Attributes
  | 0, trees => { rest := trees }
  | fuel + 1, trees =>
    match TypeName.dotted? last trees with
    | none => { rest := trees, problems := [missedLine last trees] }
    | some r =>
      let name := Tree.text (r.taken trees)
      match afterArguments r.rest with
      | [] => { names := [name], problems := r.problems ++ [last] }
      | next :: rest =>
        if next.isSymbol "," then
          let others := openAttributeList last fuel rest
          { others with names := name :: others.names, problems := r.problems ++ others.problems }
        else
          { names := [name], rest := next :: rest,
            problems := r.problems ++ [next.first.missedLine] }

/-- An `#if` around attributes only.  It belongs to the declaration after it, and what is in
it does not count. -/
def isConditionalAttributes : Tree → Bool
  | .group opener items _ =>
    opener.kind == .ifMark && items.any (·.isGroup "[") &&
      items.all fun tree => tree.isGroup "[" || tree.token?.any (·.kind == .elseMark)
  | _ => false

/-- An attribute list that needs no declaration after it. -/
def isFileAttribute (tree : Tree) : Bool :=
  match tree.groupItems? "[" with
  | some (target :: colon :: _) =>
    (target.isWord "assembly" || target.isWord "module") && colon.isSymbol ":"
  | _ => false

/-- All attributes before a declaration. -/
def attributes (last : Nat) : (fuel : Nat) → List Tree → Attributes
  | 0, trees => { rest := trees }
  | _, [] => {}
  | fuel + 1, tree :: rest =>
    let found? : Option Attributes :=
      match tree with
      | .group opener items closer =>
        if opener.isSymbol "[" then
          some { attributeList closer.missedLine items with rest }
        else if isConditionalAttributes tree then some { rest }
        else none
      | .leaf t => if t.isSymbol "[" then some (openAttributeList last rest.length rest) else none
      | _ => none
    match found? with
    | none => { rest := tree :: rest }
    | some found =>
      let others := attributes last fuel found.rest
      { others with
        names := found.names ++ others.names
        problems := found.problems ++ others.problems }

/-! ## Modifiers -/

/-- The trees can follow a name that is declared without modifiers. -/
def endsName : List Tree → Bool
  | [] => true
  | tree :: _ =>
    [";", "=", ",", "=>"].any tree.isSymbol || tree.isGroup "(" || tree.isGroup "\x7b"

/-- The word modifies what follows.  A word that may also be a name does so unless it is
itself the type of the name that follows. -/
def isModifier (word : String) (rest : List Tree) : Bool :=
  Keyword.isReservedModifier word ||
    (Keyword.isContextualModifier word &&
      match rest with
      | [] => false
      | next :: rest =>
        next.isGroup "(" || (next.word?.isSome && !(isName next && endsName rest)))

/-- The modifiers in front, and what follows them. -/
def modifiers : List Tree → List String × List Tree
  | [] => ([], [])
  | tree :: rest =>
    match tree.word? with
    | some word =>
      if isModifier word rest then
        let (others, rest) := modifiers rest
        (word :: others, rest)
      else ([], tree :: rest)
    | none => ([], tree :: rest)

/-! ## Heads of types -/

/-- A brace opens here, whether or not it is closed. -/
def opensBody : Tree → Bool
  | .unclosed opener _ => opener.isSymbol "\x7b"
  | tree => tree.isGroup "\x7b"

/-- The kind of type that the trees declare, and what follows the keywords. -/
def typeKind? : List Tree → Option (TypeKind × List Tree)
  | [] => none
  | tree :: rest =>
    match tree.word? with
    | some "class" => some (.isClass, rest)
    | some "struct" => some (.isStruct, rest)
    | some "interface" => some (.isInterface, rest)
    | some "enum" => some (.isEnum, rest)
    | some "ref" =>
      let rest := rest.dropWhile (·.isWord "partial")
      if rest.head?.any (·.isWord "struct") then some (.isStruct, rest.drop 1) else none
    | some "delegate" =>
      if rest.head?.any (·.isSymbol "*") then none else some (.isDelegate, rest)
    | some "record" =>
      match rest with
      | next :: more =>
        if next.isWord "class" || next.isWord "struct" then some (.isRecord, more)
        else if isName next && startsRecord more then some (.isRecord, rest)
        else if opensBody next then some (.isRecord, rest)
        else none
      | [] => none
    | _ => none
where
  /-- The trees can follow the name of a record. -/
  startsRecord : List Tree → Bool
    | [] => false
    | tree :: _ => [";", "<", ":"].any tree.isSymbol || tree.isGroup "(" || opensBody tree

/-- How the head of a type ends. -/
inductive HeadEnd
  | body (items : List Tree) (closer : Token)
  | semicolon
  | missing
  | unclosed

/-- The rest of a head after the name. -/
structure HeadRest where
  ending : HeadEnd
  rest : List Tree := []
  problems : List Nat := []

/-- The trees end a list of type parameters that is not closed. -/
def stopsParameters (tree : Tree) : Bool :=
  opensBody tree || tree.isGroup "(" || tree.isSymbol ";" || tree.isSymbol ":" ||
    tree.isWord "where"

/-- Type parameters after their opening bracket, of which `depth` more are open: the trees
up to and with the closing bracket, what is left, and whether the bracket is there. -/
def parametersFrom : (depth : Nat) → List Tree → List Tree × List Tree × Bool
  | _, [] => ([], [], false)
  | depth, tree :: rest =>
    if stopsParameters tree then ([], tree :: rest, false)
    else
      match tree.isSymbol ">", depth with
      | true, 0 => ([tree], rest, true)
      | isEnd, depth =>
        let depth := if isEnd then depth - 1 else if tree.isSymbol "<" then depth + 1 else depth
        let (taken, rest, closed) := parametersFrom depth rest
        (tree :: taken, rest, closed)

/-- The type parameters that the trees begin with, as written. -/
structure Parameters where
  text : String := ""
  rest : List Tree := []
  problems : List Nat := []

/-- The lines on which a parameter is missing after an opening bracket or a comma. -/
def missingParameters : List Tree → List Nat
  | a :: b :: rest =>
    (if (a.isSymbol "<" || a.isSymbol ",") && (b.isSymbol "," || b.isSymbol ">") then
      [b.first.missedLine] else []) ++ missingParameters (b :: rest)
  | _ => []

def typeParameters (last : Nat) : List Tree → Parameters
  | [] => {}
  | tree :: rest =>
    if tree.isSymbol "<" then
      let (taken, rest, closed) := parametersFrom 0 rest
      { text := Tree.text (tree :: taken), rest
        problems :=
          missingParameters (tree :: taken) ++ if closed then [] else [missedLine last rest] }
    else { rest := tree :: rest }

/-- After a colon or a comma stands a base type or a constraint. -/
def lacksType (tree : Tree) (rest : List Tree) : Bool :=
  (tree.isSymbol ":" &&
    match rest with
    | [] => true
    | next :: _ => !(isTypeWord next || next.isWord "new" || next.isWord "class" ||
        next.isWord "struct" || next.isWord "default")) ||
    (tree.isSymbol "," &&
      match rest with
      | [] => true
      | next :: _ => opensBody next || next.isSymbol ";")

/-- The line of a tree that cannot follow the name and the parameters of a type. -/
def junkAfterName : List Tree → List Nat
  | [] => []
  | tree :: _ =>
    if opensBody tree || tree.isGroup "(" || tree.isWord "where" ||
        ["(", ";", ":"].any tree.isSymbol then []
    else [tree.first.line]

/-- The name of a base type stands right after another one. -/
def isStrayBase (tree : Tree) (rest : List Tree) : Bool :=
  isName tree && !tree.isWord "where" && !tree.isWord "allows" &&
    rest.head?.any fun next => isTypeWord next && !next.isWord "where"

/-- Passes over base types and constraints up to the body. -/
def headRest (last : Nat) : List Tree → HeadRest
  | [] => { ending := .missing, problems := [last] }
  | tree :: rest =>
    match tree with
    | .unclosed .. => { ending := .unclosed }
    | .group opener items closer =>
      if opener.isSymbol "\x7b" then { ending := .body items closer, rest }
      else headRest last rest
    | .leaf t =>
      if t.isSymbol ";" then { ending := .semicolon, rest }
      else
        let after := headRest last rest
        if lacksType tree rest then
          { after with problems := missedLine last rest :: after.problems }
        else if isStrayBase tree rest then
          { after with problems := (rest.take 1).map (·.first.line) ++ after.problems }
        else after

end Backfield.CSharp.Declaration
