import Backfield.CSharp.Declaration.Member

/-!
# From trees to declarations

Reads the declarations of a file or of a body.  What cannot be read is passed over and
noted as a problem; the rest is kept.
-/

namespace Backfield.CSharp.Declaration

open Backfield.CSharp.TypeName (missedLine isName isTypeWord)

/-- Where declarations stand. -/
inductive Site
  /-- In a file, where statements may stand beside them. -/
  | file
  /-- Between the braces of a namespace or a type. -/
  | body
  deriving DecidableEq, Repr

/-- The declarations of a file or a body, and what is wrong in it. -/
structure Body where
  declarations : List Declaration := []
  problems : List Nat := []
  /-- The type with this body cannot be read. -/
  breaksType : Bool := false

/-- Drops the semicolon that may stand after a body. -/
def afterSemicolon : List Tree → List Tree
  | [] => []
  | tree :: rest => if tree.isSymbol ";" then rest else tree :: rest

/-- A declaration that an unclosed brace makes unreadable: wrong from its first token on. -/
def unreadable (start : Nat) : Member := { problems := [start] }

/-- Passes over a member or a statement. -/
def skipped (start last : Nat) (trees : List Tree) : Member :=
  let (rest, ending) := afterMember false trees
  let problems := Statements.problemsOfMember [] (trees.take (trees.length - rest.length))
  match ending with
  | .closed => { rest, problems }
  | .missing => { rest, problems := problems ++ [last] }
  | .unclosed => unreadable start

/-- Passes over a statement beside the declarations of a file. -/
def statement (start last : Nat) (trees : List Tree) : Member :=
  let member := skipped start last trees
  let read := trees.take (trees.length - member.rest.length)
  { member with problems := Statements.problemsOfStatement read ++ member.problems }

/-- Passes over one tree that has no place here. -/
def junk : List Tree → Member
  | [] => {}
  | tree :: rest => { rest, problems := [tree.first.line] }

/-- A delegate after its keyword. -/
def delegate (start last : Nat) (modifiers : List String) (trees : List Tree) : Member :=
  match TypeName.ofTrees? .lenient last trees with
  | none => { skipped start last trees with problems := [missedLine last trees] }
  | some r =>
    let (name, rest, problems) :=
      match r.rest with
      | tree :: rest =>
        if isName tree then (tree.word?.getD "", rest, [])
        else ("", tree :: rest, [tree.first.missedLine])
      | [] => ("", [], [last])
    let parameters := typeParameters last rest
    let after := skipped start last parameters.rest
    { outline := .plain (.type ⟨.isDelegate, modifiers, name, parameters.text⟩ [])
      rest := after.rest
      problems := r.problems ++ problems ++ parameters.problems ++
        lacksParameters parameters.rest ++ after.problems }
where
  /-- The line of a tree that stands where the parameters of a delegate should. -/
  lacksParameters : List Tree → List Nat
    | [] => []
    | tree :: _ => if tree.isGroup "(" || tree.isSymbol "(" then [] else [tree.first.missedLine]

/-- A field, a member that is not looked into, or something that has no place in a body. -/
def plainMember (start last : Nat) (attributes : List String) (trees : List Tree) : Member :=
  let other :=
    if isOtherMember trees || isProperty last trees then
      let member := skipped start last trees
      { member with
        problems := missingNames last trees ++ accessorListProblems last trees ++
          member.problems }
    else junk trees
  match TypeName.ofTrees? .lenient last trees with
  | none => other
  | some r =>
    match afterType r.rest with
    | .otherMember => other
    | .noMember => { problems := [last] }
    | .nameless => { skipped start last r.rest with breaksType := true }
    | .field =>
      let found := declarators last r.rest.length r.rest
      let typeText := if r.problems.isEmpty then some (Tree.text (r.taken trees)) else none
      let read := trees.take (trees.length - found.rest.length)
      { outline := .plain (.field ⟨attributes, typeText, found.names⟩)
        rest := found.rest
        problems := r.problems ++ found.problems ++ Statements.problemsOfMember [] read }

/-- The branches of an `#if` one after the other, without what divides them. -/
def withoutMarks (items : List Tree) : List Tree :=
  items.filter fun tree => !tree.token?.any (·.kind == .elseMark)

/-- The lines on which a comma is missing between the members of an enumeration. -/
def enumProblems : List Tree → List Nat
  | a :: b :: rest =>
    (if isName a && isName b then [b.first.missedLine] else []) ++ enumProblems (b :: rest)
  | _ => []

/-- A type after its keyword. -/
def typeMember (start last : Nat) (kind : TypeKind) (modifiers : List String)
    (trees : List Tree) : Member :=
  let (name, rest, problems) :=
    match trees with
    | tree :: rest =>
      if isName tree then (tree.word?.getD "", rest, [])
      else ("", tree :: rest, [tree.first.missedLine])
    | [] => ("", [], [last])
  let parameters := typeParameters last rest
  let head := headRest last parameters.rest
  let problems :=
    problems ++ parameters.problems ++ junkAfterName parameters.rest ++ head.problems
  let typeHead : TypeHead := ⟨kind, modifiers, name, parameters.text⟩
  match head.ending with
  | .unclosed => unreadable start
  | .semicolon => { outline := .plain (.type typeHead []), rest := head.rest, problems }
  | .missing => { outline := .plain (.type typeHead []), rest := head.rest, problems }
  | .body items closer =>
    let rest := afterSemicolon head.rest
    if kind = .isEnum then
      { outline := .plain (.type typeHead []), rest, problems := problems ++ enumProblems items }
    else { outline := .type typeHead items closer.missedLine start, rest, problems }

/-- A namespace after its keyword. -/
def spaceMember (site : Site) (start last : Nat) (trees : List Tree) : Member :=
  let (name, rest, problems) :=
    match TypeName.dotted? last trees with
    | some r => (Tree.text (r.taken trees), r.rest, r.problems)
    | none => ("", trees, [missedLine last trees])
  match rest with
  | [] => { outline := .plain (.fileSpace name), problems := problems ++ [last] }
  | .unclosed .. :: _ => unreadable start
  | .group opener items closer :: rest =>
    if opener.isSymbol "\x7b" then
      { outline := .space name items closer.missedLine, rest := afterSemicolon rest, problems }
    else { rest, problems := problems ++ [opener.missedLine] }
  | .leaf t :: rest =>
    if t.isSymbol ";" then
      { outline := .plain (.fileSpace name), rest
        problems := problems ++ if site = .file then [] else [start] }
    else { rest := .leaf t :: rest, problems := problems ++ [t.missedLine] }

/-- A declaration after its attributes and modifiers. -/
def declarationMember (site : Site) (start last : Nat) (attributes modifiers : List String)
    (trees : List Tree) : Member :=
  match typeKind? trees with
  | some (.isDelegate, rest) => delegate start last modifiers rest
  | some (kind, rest) => typeMember start last kind modifiers rest
  | none =>
    match trees with
    | [] => { problems := [last] }
    | tree :: rest =>
      if tree.isWord "namespace" then spaceMember site start last rest
      else
        match usingDirective? last trees with
        | some member => member
        | none =>
          if site = .file then statement start last trees
          else plainMember start last attributes trees

/-- The first declaration at a site. -/
def memberOf (site : Site) (last : Nat) (tree : Tree) (rest : List Tree) : Member :=
  let start := tree.first.line
  if tree.isSymbol ";" then { rest, problems := if site = .file then [] else [start] }
  else if tree.first.kind == .ifMark && !isConditionalAttributes tree then
    match tree with
    | .group _ items closer =>
      { outline := .conditional (withoutMarks items) closer.missedLine, rest }
    | _ => { rest, problems := [start] }
  else
    let found := attributes last (rest.length + 1) (tree :: rest)
    if site = .file && found.rest.isEmpty then
      { problems :=
          found.problems ++ if (tree :: rest).all isFileAttribute then [] else [last] }
    else
      let (words, trees) := modifiers found.rest
      let member := declarationMember site start last found.names words trees
      { member with problems := found.problems ++ member.problems }

/-- The declarations at a site, of at most `fuel` trees. -/
def bodyOf (site : Site) (last : Nat) : (fuel : Nat) → List Tree → Body
  | 0, _ => {}
  | _ + 1, [] => {}
  | fuel + 1, tree :: rest =>
    let member := memberOf site last tree rest
    let others := bodyOf site last fuel member.rest
    let here : Body :=
      match member.outline with
      | .plain declaration => { declarations := [declaration] }
      | .type head items last start =>
        let body := bodyOf .body last fuel items
        if body.breaksType then { declarations := [.other], problems := [start] }
        else { declarations := [.type head body.declarations], problems := body.problems }
      | .space name items last =>
        let body := bodyOf .body last fuel items
        { declarations := [.space name body.declarations], problems := body.problems }
      | .conditional items last =>
        let body := bodyOf site last fuel items
        { declarations := [.conditional body.declarations], problems := body.problems }
    { declarations := here.declarations ++ others.declarations
      problems := member.problems ++ here.problems ++ others.problems
      breaksType := member.breaksType || others.breaksType }

end Declaration

/-- What a text declares, and the lines on which it is no C#. -/
structure SourceUnit where
  declarations : List Declaration
  problems : List Nat

/-- The line of a token that has no place in any C# text. -/
def Token.problem? (t : Token) : Option Nat :=
  if t.kind == .stray || t.kind == .unclosed then some t.line else none

/-- Reads a C# text. -/
def SourceUnit.ofText (text : String) : SourceUnit :=
  let list := Token.ofText text
  let forest := Forest.ofTokens list
  let body :=
    Declaration.bodyOf .file list.lastLine (4 * list.tokens.length + 4) forest.trees
  ⟨body.declarations,
    list.tokens.filterMap (·.problem?) ++ Neighbors.problems list.tokens ++ forest.problems ++
      body.problems⟩

/-- The first line on which a text is no C#, if there is one. -/
def SourceUnit.firstProblem? (unit : SourceUnit) : Option Nat := unit.problems.min?

end Backfield.CSharp
