import Backfield.CSharp.Declaration.Head
import Backfield.CSharp.Neighbors
import Backfield.CSharp.Statements

/-!
# Members without declarations inside

Fields, using directives and whatever else ends with a semicolon or with a body that is not
looked into.
-/

namespace Backfield.CSharp.Declaration

open Backfield.CSharp.TypeName (missedLine isName isTypeWord)

/-- A declaration whose body, if it has one, is still to be read.  Beside a body stands the
line on which something missing at its end is missed. -/
inductive Outline
  | plain (declaration : Declaration)
  /-- A type that begins on the given line. -/
  | type (head : TypeHead) (body : List Tree) (last start : Nat)
  | space (name : String) (body : List Tree) (last : Nat)
  | conditional (body : List Tree) (last : Nat)

/-- The outline of a declaration, what is left after it, and what is wrong. -/
structure Member where
  outline : Outline := .plain .other
  rest : List Tree := []
  problems : List Nat := []
  /-- The type around this member cannot be read because of it. -/
  breaksType : Bool := false

/-! ## Initialisers -/

/-- After such a tree a list of type arguments is closed rather than a comparison made. -/
def followsArguments : List Tree → Bool
  | [] => true
  | tree :: _ =>
    [";", ",", ".", "?", ":", "==", "!=", "|", "^", "&&", "||", "&"].any tree.isSymbol ||
      tree.isGroup "(" || tree.isGroup "[" || tree.isGroup "\x7b"

/-- A name read just before belongs to a type rather than to a value. -/
def expectsType (before : List Tree) : Bool :=
  match before.dropWhile fun tree => isTypeWord tree || tree.isSymbol "." || tree.isSymbol "::" with
  | tree :: _ => tree.isWord "new" || tree.isWord "is" || tree.isWord "as"
  | [] => false

/-- The rest after the type arguments whose opening bracket has just been read, unless the
bracket is a comparison. -/
def afterTypeArguments? (before rest : List Tree) : Option (List Tree) :=
  match TypeName.arguments? .strict 0 (4 * rest.length + 4) rest with
  | some r => if followsArguments r.rest || expectsType before then some r.rest else none
  | none => none

/-- An operand ends here, so that no type may follow. -/
def endsOperand (tree : Tree) : Bool :=
  tree.isGroup "[" || tree.token?.any Neighbors.isLiteral ||
    (isName tree && !tree.word?.any Neighbors.beforeType.contains)

/-- No expression goes on with this tree: something is missing before it. -/
def startsDeclaration (before : List Tree) (tree : Tree) : Bool :=
  tree.word?.any fun word =>
    (Keyword.isReservedModifier word && word != "new" && word != "static") ||
      ["class", "struct", "interface", "enum", "event", "namespace"].contains word ||
      (Keyword.isType word && before.head?.any endsOperand)

/-- The rest after an expression: from the comma or semicolon on that ends it.  `before`
holds what has been read of it, last tree first. -/
def afterExpression : (fuel : Nat) → (before : List Tree) → List Tree → List Tree
  | 0, _, trees => trees
  | _, _, [] => []
  | fuel + 1, before, tree :: rest =>
    if tree.isSymbol ";" || tree.isSymbol "," || startsDeclaration before tree then tree :: rest
    else if tree.isSymbol "<" then
      match afterTypeArguments? before rest with
      | some after => afterExpression fuel (tree :: before) after
      | none => afterExpression fuel (tree :: before) rest
    else
      match tree with
      | .unclosed .. => tree :: rest
      | _ => afterExpression fuel (tree :: before) rest

/-! ## Fields -/

/-- The variables of a declaration, and what follows its semicolon. -/
structure Declarators where
  names : List String := []
  rest : List Tree := []
  problems : List Nat := []

/-- The initialiser and the size after the name of a variable are passed over. -/
def afterVariable (trees : List Tree) : List Tree :=
  let trees :=
    match trees with
    | size :: rest => if size.isGroup "[" then rest else trees
    | [] => []
  match trees with
  | equals :: rest => if equals.isSymbol "=" then afterExpression rest.length [] rest else trees
  | [] => []

/-- Variables up to the semicolon.  One without a name counts as none. -/
def declarators (last : Nat) : (fuel : Nat) → List Tree → Declarators
  | 0, trees => { rest := trees }
  | fuel + 1, trees =>
    let (names, problems, rest) :=
      match trees with
      | tree :: rest =>
        if isName tree then (tree.word?.toList, [], rest)
        else ([], [tree.first.missedLine], trees)
      | [] => ([], [last], [])
    match afterVariable rest with
    | [] => { names, problems := problems ++ [last] }
    | tree :: rest =>
      if tree.isSymbol "," then
        let others := declarators last fuel rest
        { others with
          names := names ++ others.names
          problems := problems ++ others.problems }
      else if tree.isSymbol ";" then { names, rest, problems }
      else { names, rest := tree :: rest, problems := problems ++ [tree.first.missedLine] }

/-- The trees after a type and a name make it the declaration of a variable. -/
def continuesField : List Tree → Bool
  | [] => true
  | tree :: _ =>
    !(tree.isGroup "(" || opensBody tree || ["=>", "<", ".", "::", "("].any tree.isSymbol)

/-- What the trees after a type say. -/
inductive AfterType
  | field
  /-- A value is given, but no name. -/
  | nameless
  | noMember
  | otherMember
  deriving DecidableEq, Repr

def afterType : List Tree → AfterType
  | [] => .noMember
  | tree :: rest =>
    if isName tree then if continuesField rest then .field else .otherMember
    else if tree.isSymbol "=" then .nameless
    else if tree.isSymbol ";" || tree.isSymbol "," then .field
    else .otherMember

/-! ## Using directives -/

/-- The rest after the words at the front of a using directive. -/
def afterUsingWords (trees : List Tree) : Option (List Tree) :=
  let trees := if trees.head?.any (·.isWord "global") then trees.drop 1 else trees
  match trees with
  | tree :: rest =>
    if tree.isWord "using" then
      let rest := if rest.head?.any (·.isWord "static") then rest.drop 1 else rest
      some (if rest.head?.any (·.isWord "unsafe") then rest.drop 1 else rest)
    else none
  | [] => none

/-- What a using directive names: a type under an alias, or a dotted name. -/
def usingTarget (last : Nat) (trees : List Tree) : Option Reading :=
  match trees with
  | name :: equals :: rest =>
    if isName name && equals.isSymbol "=" then TypeName.ofTrees? .lenient last rest
    else if name.isSymbol "=" then
      (TypeName.ofTrees? .lenient last (equals :: rest)).map fun r =>
        { r with problems := name.first.missedLine :: r.problems }
    else TypeName.dotted? last trees
  | _ => TypeName.dotted? last trees

/-- A using directive, unless the trees begin with a statement or something else. -/
def usingDirective? (last : Nat) (trees : List Tree) : Option Member := do
  let rest ← afterUsingWords trees
  match usingTarget last rest with
  | none =>
    if rest.head?.any (·.isSymbol ";") then
      some { rest := rest.drop 1, problems := [missedLine last rest] }
    else if rest.isEmpty then some { problems := [last] }
    else none
  | some r =>
    match r.rest with
    | [] =>
      some { outline := .plain (.usingDirective (Tree.text trees)), problems := r.problems ++ [last] }
    | tree :: more =>
      if tree.isSymbol ";" then
        some {
          outline := .plain <| .usingDirective <|
            Tree.text (trees.take (trees.length - more.length))
          rest := more
          problems := r.problems }
      else if isName tree then none
      else
        some {
          outline := .plain <| .usingDirective <|
            Tree.text (trees.take (trees.length - r.rest.length))
          rest := r.rest
          problems := r.problems ++ [tree.first.missedLine] }

/-! ## Everything else -/

/-- How a member that is not looked into ends. -/
inductive Ending
  | closed
  | missing
  | unclosed
  deriving DecidableEq, Repr

/-- The rest after a member.  A semicolon or a body ends it; once a value is being given,
only a semicolon does. -/
def afterMember (givesValue : Bool) : List Tree → List Tree × Ending
  | [] => ([], .missing)
  | tree :: rest =>
    match tree with
    | .unclosed .. => ([], .unclosed)
    | .group opener _ _ =>
      if opener.isSymbol "\x7b" && !givesValue then
        if rest.head?.any (·.isSymbol "=") then afterMember true rest else (rest, .closed)
      else afterMember givesValue rest
    | .leaf t =>
      if t.isSymbol ";" then (rest, .closed)
      else afterMember (givesValue || t.isSymbol "=" || t.isSymbol "=>") rest

/-- The trees before the body or the value of a member. -/
def memberHead (trees : List Tree) : List Tree :=
  trees.takeWhile fun tree =>
    !(tree.isSymbol ";" || tree.isSymbol "=" || tree.isSymbol "=>" || opensBody tree)

/-- The member is a property: a type, a name and a body or a value. -/
def isProperty (last : Nat) (trees : List Tree) : Bool :=
  match TypeName.ofTrees? .lenient last trees with
  | none => false
  | some r =>
    match TypeName.dotted? last r.rest with
    | none => false
    | some name =>
      match name.rest with
      | tree :: _ => opensBody tree || tree.isSymbol "=>"
      | [] => false

/-- The trees hold the parameters of an indexer. -/
def hasIndex : List Tree → Bool
  | a :: b :: rest => (a.isWord "this" && b.isGroup "[") || hasIndex (b :: rest)
  | _ => false

/-- The trees can begin a member with parameters: a method, a constructor, a finalizer, an
operator, an indexer or an event. -/
def isOtherMember (trees : List Tree) : Bool :=
  let head := memberHead trees
  head.head?.any (fun tree => tree.word?.isSome || tree.isSymbol "~" || tree.isGroup "(") &&
    (head.any (fun tree => tree.isGroup "(" || tree.isSymbol "(") ||
      head.any (·.isWord "operator") || hasIndex head || head.head?.any (·.isWord "event"))

/-- The lines on which the name of a member is missing: between a type of its own and the
parameters of a method, or at the end of an event. -/
def missingNames (last : Nat) (trees : List Tree) : List Nat :=
  match trees with
  | first :: next :: rest =>
    if first.word?.any Keyword.isType && next.isGroup "(" then [next.first.missedLine]
    else if first.isWord "event" then
      match TypeName.ofTrees? .lenient last (next :: rest) with
      | some r => if r.rest.head?.any isName then [] else [missedLine last r.rest]
      | none => [next.first.missedLine]
    else []
  | _ => []

/-! ## Accessors -/

/-- Where a list of accessors has been read to. -/
inductive AccessorState
  | before
  | named
  | giving
  deriving DecidableEq, Repr

/-- The line on which a list of accessors cannot be read on. -/
def accessorProblems (last : Nat) : AccessorState → List Tree → List Nat
  | .before, [] => []
  | _, [] => [last]
  | .before, tree :: rest =>
    if tree.isGroup "[" || tree.first.kind == .ifMark ||
        tree.word?.any Keyword.isReservedModifier then accessorProblems last .before rest
    else if tree.word?.any Statements.accessorWords.contains then accessorProblems last .named rest
    else [tree.first.line]
  | .named, tree :: rest =>
    if tree.isSymbol ";" || tree.isGroup "\x7b" then accessorProblems last .before rest
    else if tree.isSymbol "=>" then accessorProblems last .giving rest
    else [tree.first.missedLine]
  | .giving, tree :: rest =>
    accessorProblems last (if tree.isSymbol ";" then .before else .giving) rest

/-- The lines on which the accessors of a property, an indexer or an event cannot be read. -/
def accessorListProblems (last : Nat) (trees : List Tree) : List Nat :=
  let head := memberHead trees
  if isProperty last trees || hasIndex head || head.head?.any (·.isWord "event") then
    match trees.drop head.length with
    | .group opener items closer :: _ =>
      if opener.isSymbol "\x7b" then accessorProblems closer.missedLine .before items else []
    | _ => []
  else []

end Backfield.CSharp.Declaration
