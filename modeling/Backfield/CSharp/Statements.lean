import Backfield.CSharp.Keyword
import Backfield.CSharp.Neighbors
import Backfield.CSharp.Tree

/-!
# Statements

Bodies are not read in full either.  What is looked for in them is a statement that lacks
its semicolon at the end of a block or before another block.  A brace in a body opens either
a block of statements or a part of an expression, such as the initialiser of an object; the
trees before it tell which.  Where they leave a doubt, nothing is said to be missing.
-/

namespace Backfield.CSharp.Statements

/-- Symbols of a statement that gives a value. -/
def assigning : List String :=
  ["=", "=>", "+=", "-=", "*=", "/=", "%=", "&=", "|=", "^=", "<<=", ">>=", "??=", "??"]

/-- First words of a statement that gives a value. -/
def valueWords : List String := ["return", "throw", "yield", "case", "goto", "new", "var"]

/-- Words that are followed by parentheses and then by a statement. -/
def headWords : List String :=
  ["if", "while", "for", "foreach", "switch", "catch", "lock", "using", "fixed"]

/-- Words that are followed by a statement or a block at once. -/
def blockWords : List String :=
  ["else", "do", "try", "catch", "finally", "checked", "unchecked", "unsafe"]

/-- Words that name an accessor. -/
def accessorWords : List String := ["get", "set", "init", "add", "remove"]

/-! ## The statement so far -/

/-- Nothing but names, as in the declaration of a variable. -/
def isNamesOnly (before : List Tree) : Bool :=
  before.all fun tree =>
    tree.word?.isSome || [".", "<", ">", ",", "?"].any tree.isSymbol || tree.isGroup "["

/-- Nothing but what may stand before an accessor. -/
def isAccessorStart (before : List Tree) : Bool :=
  before.all fun tree => tree.word?.any Keyword.isReservedModifier || tree.isGroup "["

/-- The trees of a statement, last one first, and one more.  What follows the head of a
statement counts as a statement of its own. -/
def extend (before : List Tree) (tree : Tree) : List Tree :=
  let endsHead :=
    (tree.isGroup "(" &&
      (before.head?.any (·.word?.any headWords.contains) ||
        (before.head?.any (·.isWord "when") && before.getLast?.any (·.isWord "catch")))) ||
      (before.isEmpty && tree.word?.any blockWords.contains && !tree.isWord "catch") ||
      (tree.word?.any accessorWords.contains && isAccessorStart before)
  if endsHead then [] else tree :: before

/-- The trees of a statement are a label, so that another statement follows. -/
def isLabel (before : List Tree) : Bool :=
  match before with
  | [tree] => tree.word?.isSome
  | _ => before.getLast?.any fun tree => tree.isWord "case" || tree.isWord "default"

/-! ## Braces -/

/-- What a brace opens. -/
inductive Opens
  /-- A block that ends the statement. -/
  | block
  /-- The block of a function within an expression. -/
  | functionBody
  | expression
  /-- Another statement: the one before lacks its semicolon. -/
  | nextStatement
  deriving DecidableEq, Repr

/-- The trees before a brace make it the body of a nameless function. -/
def startsFunction : List Tree → Bool
  | [] => false
  | tree :: rest =>
    tree.isSymbol "=>" || tree.isWord "delegate" ||
      (tree.isGroup "(" && rest.head?.any (·.isWord "delegate"))

/-- The trees of a statement give a value. -/
def givesValue (before : List Tree) : Bool :=
  before.any (fun tree => assigning.any tree.isSymbol) ||
    before.getLast?.any (·.word?.any valueWords.contains) ||
    before.head?.any (fun tree => ["switch", "is", "with"].any tree.isWord) ||
    (before.any (·.isWord "new") && !before.any (·.isWord "where"))

/-- What a brace opens after the trees of a statement, last one first. -/
def opens (before : List Tree) : Opens :=
  if before.isEmpty then .block
  else if startsFunction before then .functionBody
  else if givesValue before then .expression
  else if before.head?.any (·.isWord "catch") then .block
  else if isNamesOnly before then .nextStatement
  else .block

/-! ## What is missing -/

/-- Words that are a statement of their own. -/
def loneWords : List String := ["break", "continue", "return", "throw"]

/-- The trees of a statement are no more than a name or a literal: what would make it a
statement is missing. -/
def isBareValue (before : List Tree) : Bool :=
  match before with
  | [tree] => tree.token?.any fun t =>
      (t.kind == .word && !loneWords.contains t.text) || Neighbors.isLiteral t
  | _ => false

mutual

/-- The lines on which a semicolon is missing in a tree, which holds statements if `block`
is set. -/
def problemsOfTree (block : Bool) : Tree → List Nat
  | .leaf _ => []
  | .group _ items closer => problemsOf block closer.missedLine [] items
  | .unclosed .. => []
termination_by structural tree => tree

/-- The lines on which a semicolon is missing among trees, which are statements if `block`
is set.  `before` holds the statement so far, last tree first. -/
def problemsOf (block : Bool) (last : Nat) : (before : List Tree) → List Tree → List Nat
  | before, [] => if block && !before.isEmpty then [last] else []
  | before, tree :: rest =>
    if tree.isSymbol ";" then
      (if block && isBareValue before then [tree.first.missedLine] else []) ++
        problemsOf block last [] rest
    else if tree.isSymbol ":" && isLabel before then problemsOf block last [] rest
    else if tree.isGroup "\x7b" && block then
      match opens before with
      | .block => problemsOfTree true tree ++ problemsOf block last [] rest
      | .nextStatement =>
        tree.first.missedLine :: problemsOfTree true tree ++ problemsOf block last [] rest
      | .functionBody =>
        problemsOfTree true tree ++ problemsOf block last (tree :: before) rest
      | .expression =>
        problemsOfTree false tree ++ problemsOf block last (tree :: before) rest
    else if tree.isGroup "\x7b" then
      problemsOfTree (startsFunction before) tree ++ problemsOf block last (tree :: before) rest
    else if tree.first.kind == .ifMark then problemsOf block last before rest
    else problemsOfTree false tree ++ problemsOf block last (extend before tree) rest
termination_by structural _ trees => trees

end

/-- The lines on which a semicolon is missing among the bodies in a member, after the trees
before. -/
def problemsOfMember (before : List Tree) : List Tree → List Nat
  | [] => []
  | tree :: rest =>
    let isBody := tree.isGroup "\x7b" &&
      (startsFunction before || !before.any fun t => t.isSymbol "=" || t.isSymbol "=>")
    problemsOfTree isBody tree ++ problemsOfMember (tree :: before) rest

/-- The trees of a statement, last one first, that begin with its last part. -/
def lastPart (trees : List Tree) : List Tree := trees.foldl extend []

/-- What is wrong in a statement as a whole: it is a bare value, or it lacks its semicolon
before a block that follows it. -/
def problemsOfStatement (trees : List Tree) : List Nat :=
  match trees.getLast? with
  | none => []
  | some tree =>
    if tree.isSymbol ";" && isBareValue trees.dropLast then [tree.first.missedLine]
    else if tree.isGroup "\x7b" && opens (lastPart trees.dropLast) = .nextStatement then
      [tree.first.missedLine]
    else []

end Backfield.CSharp.Statements
