import Backfield.CSharp.Keyword
import Backfield.CSharp.Tree

/-!
# Written types

Where a type ends, and the dotted names that types, namespaces and attributes begin with.
A reading gives the trees after the type and the lines on which something is missing in
it; there is none if the trees do not begin with a type.
-/

namespace Backfield.CSharp

/-- What is left after a reading, and the lines on which something was missing. -/
structure Reading where
  rest : List Tree
  problems : List Nat := []

/-- The trees that a reading has taken. -/
def Reading.taken (r : Reading) (trees : List Tree) : List Tree :=
  trees.take (trees.length - r.rest.length)

namespace TypeName

/-- Whether the closing bracket of type arguments may be missing. -/
inductive Mode
  | strict
  | lenient
  deriving DecidableEq, Repr

/-- The line on which something missing before these trees is missed; `last` if there are
no more. -/
def missedLine (last : Nat) : List Tree → Nat
  | [] => last
  | tree :: _ => tree.first.missedLine

/-- A word that can be a name. -/
def isName (tree : Tree) : Bool := tree.word?.any fun word => !Keyword.isReserved word

/-- A word that can be a name or a type of its own. -/
def isTypeWord (tree : Tree) : Bool :=
  tree.word?.any fun word => !Keyword.isReserved word || Keyword.isType word

/-- Only commas, as in the brackets of an array type. -/
def isRank (items : List Tree) : Bool := items.all (·.isSymbol ",")

/-- Passes over the marks after a type that make it nullable, a pointer or an array.  In a
lenient reading the closing bracket of an array type may be missing. -/
def afterMarks (mode : Mode) (last : Nat) : List Tree → Reading
  | [] => ⟨[], []⟩
  | tree :: rest =>
    if tree.isSymbol "?" || tree.isSymbol "*" || (tree.groupItems? "[").any isRank then
      afterMarks mode last rest
    else if mode = .lenient && tree.isSymbol "[" then
      let r := afterMarks mode last rest
      { r with problems := missedLine last rest :: r.problems }
    else ⟨tree :: rest, []⟩

/-- A reading that goes on with the marks after a type. -/
def Reading.withMarks (mode : Mode) (last : Nat) (r : Reading) : Reading :=
  let marks := afterMarks mode last r.rest
  ⟨marks.rest, r.problems ++ marks.problems⟩

/-- Passes over the words before a type that make it a reference. -/
def afterReference : List Tree → List Tree
  | a :: b :: c :: rest =>
    if a.isWord "scoped" && b.isWord "ref" then
      if c.isWord "readonly" then rest else c :: rest
    else if a.isWord "ref" then if b.isWord "readonly" then c :: rest else b :: c :: rest
    else if a.isWord "scoped" && isTypeWord b && isName c then b :: c :: rest
    else a :: b :: c :: rest
  | [a, b] => if a.isWord "ref" then [b] else [a, b]
  | trees => trees

/-- Type arguments whose closing bracket is not there. -/
def missingEnd? (mode : Mode) (last : Nat) (r : Reading) : Option Reading :=
  match mode with
  | .strict => none
  | .lenient => some { r with problems := r.problems ++ [missedLine last r.rest] }

/-- A type argument that is not there although a comma stands before it. -/
def missingType? (mode : Mode) (last : Nat) (trees : List Tree) : Option Reading :=
  if mode = .lenient && trees.head?.any (fun tree => tree.isSymbol ">" || tree.isSymbol ",") then
    some ⟨trees, [missedLine last trees]⟩
  else none

mutual

/-- A type.  More trees than `fuel` are not looked at. -/
def type? (mode : Mode) (last : Nat) : (fuel : Nat) → List Tree → Option Reading
  | 0, _ => none
  | fuel + 1, trees =>
    match afterReference trees with
    | [] => none
    | tree :: rest =>
      if tree.isGroup "(" then some (Reading.withMarks mode last ⟨rest, []⟩)
      else if tree.isWord "delegate" && rest.head?.any (·.isSymbol "*") then
        functionPointer? mode last fuel (rest.drop 1)
      else if isTypeWord tree then
        (name? mode last fuel (tree :: rest)).map (Reading.withMarks mode last)
      else none

/-- A dotted name, each part with its type arguments. -/
def name? (mode : Mode) (last : Nat) : (fuel : Nat) → List Tree → Option Reading
  | 0, _ => none
  | _, [] => none
  | fuel + 1, tree :: rest =>
    if !isTypeWord tree then none
    else do
      let arguments ←
        match rest with
        | [] => some ⟨[], []⟩
        | next :: rest =>
          if next.isSymbol "<" then arguments? mode last fuel rest else some ⟨next :: rest, []⟩
      match arguments.rest with
      | dot :: more =>
        if dot.isSymbol "." || dot.isSymbol "::" then
          match name? mode last fuel more with
          | some r => some ⟨r.rest, arguments.problems ++ r.problems⟩
          | none =>
            if mode = .lenient && !more.head?.any (·.word?.isSome) then
              some ⟨more, arguments.problems ++ [missedLine last more]⟩
            else some arguments
        else some arguments
      | [] => some arguments

/-- Type arguments after their opening bracket.  There may be none, only commas. -/
def arguments? (mode : Mode) (last : Nat) : (fuel : Nat) → List Tree → Option Reading
  | 0, _ => none
  | fuel + 1, trees =>
    match trees.dropWhile (·.isSymbol ",") with
    | close :: rest =>
      if close.isSymbol ">" then some ⟨rest, []⟩ else argumentList? mode last fuel trees
    | [] => none

/-- Type arguments, at least one, up to and with the closing bracket. -/
def argumentList? (mode : Mode) (last : Nat) : (fuel : Nat) → List Tree → Option Reading
  | 0, _ => none
  | fuel + 1, trees => do
    let r ← (type? mode last fuel trees).or (missingType? mode last trees)
    match r.rest with
    | next :: rest =>
      if next.isSymbol ">" then some ⟨rest, r.problems⟩
      else if next.isSymbol "," then
        (argumentList? mode last fuel rest).map fun more =>
          { more with problems := r.problems ++ more.problems }
      else missingEnd? mode last r
    | [] => missingEnd? mode last r

/-- The rest of the type of a function pointer, after its asterisk. -/
def functionPointer? (mode : Mode) (last : Nat) : (fuel : Nat) → List Tree → Option Reading
  | 0, _ => none
  | fuel + 1, trees =>
    match trees.dropWhile fun tree => isName tree || tree.isGroup "[" with
    | bracket :: rest =>
      if bracket.isSymbol "<" then
        (argumentList? mode last fuel rest).map (Reading.withMarks mode last)
      else none
    | [] => none

end

/-- A type at the front of the trees. -/
def ofTrees? (mode : Mode) (last : Nat) (trees : List Tree) : Option Reading :=
  type? mode last (4 * trees.length + 4) trees

/-- A dotted name at the front of the trees. -/
def dotted? (last : Nat) (trees : List Tree) : Option Reading :=
  name? .lenient last (4 * trees.length + 4) trees

end TypeName

end Backfield.CSharp
