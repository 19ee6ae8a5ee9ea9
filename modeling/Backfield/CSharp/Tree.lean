import Backfield.CSharp.Token

/-!
# Bracket trees

Tokens grouped by the brackets around them, and by `#if` and `#endif`.  A text whose
brackets do not match still has a tree: a parenthesis or a square bracket that is never
closed is a token like any other, a brace that is never closed holds what follows it.
-/

namespace Backfield.CSharp

inductive Tree
  | leaf (t : Token)
  | group (opener : Token) (items : List Tree) (closer : Token)
  /-- What follows an opening brace that is never closed. -/
  | unclosed (opener : Token) (items : List Tree)
  deriving Repr

namespace Tree

mutual

/-- The tokens of a tree, in order. -/
def tokens : Tree → List Token
  | leaf t => [t]
  | group opener items closer => opener :: (tokensOf items ++ [closer])
  | unclosed opener items => opener :: tokensOf items
termination_by structural tree => tree

/-- The tokens of successive trees. -/
def tokensOf : List Tree → List Token
  | [] => []
  | tree :: rest => tree.tokens ++ tokensOf rest
termination_by structural trees => trees

end

/-- The source text of successive trees. -/
def text (trees : List Tree) : String := Token.slice (tokensOf trees)

/-- The first token of a tree. -/
def first : Tree → Token
  | leaf t => t
  | group opener _ _ => opener
  | unclosed opener _ => opener

/-- The token of a tree that is a single one. -/
def token? : Tree → Option Token
  | leaf t => some t
  | _ => none

def isSymbol (tree : Tree) (symbol : String) : Bool := tree.token?.any (·.isSymbol symbol)

def isWord (tree : Tree) (word : String) : Bool := tree.token?.any (·.isWord word)

/-- The word of a tree that is a single one. -/
def word? (tree : Tree) : Option String :=
  tree.token?.bind fun t => if t.kind == .word then some t.text else none

/-- The items of a group that opens with the given bracket. -/
def groupItems? (opening : String) : Tree → Option (List Tree)
  | group opener items _ => if opener.isSymbol opening then some items else none
  | _ => none

def isGroup (opening : String) (tree : Tree) : Bool := (tree.groupItems? opening).isSome

/-! ## Building -/

/-- A bracket that is open, and the trees before it at its level, last one first. -/
structure Level where
  opener : Token
  before : List Tree

/-- The state of building: the trees read at the innermost level, last one first, the levels
around, innermost first, and the lines on which something is wrong. -/
structure Building where
  here : List Tree := []
  levels : List Level := []
  problems : List Nat := []

def isRound (t : Token) : Bool := t.isSymbol "(" || t.isSymbol "["

def isOpener (t : Token) : Bool := isRound t || t.isSymbol "\x7b" || t.kind == .ifMark

/-- The opening bracket that a token closes. -/
def opening? (t : Token) : Option String :=
  if t.isSymbol ")" then some "("
  else if t.isSymbol "]" then some "["
  else if t.isSymbol "\x7d" then some "\x7b"
  else none

/-- Within these parentheses stand semicolons: those after `for`. -/
def holdsSemicolons (level : Level) : Bool :=
  level.opener.isSymbol "(" && level.before.head?.any (·.isWord "for")

/-- Gives up the innermost level: its bracket becomes a token among the trees around it.
The closing bracket is missing on the given line. -/
def giveUp (line : Nat) (level : Level) (levels : List Level) (b : Building) : Building :=
  { here := b.here ++ leaf level.opener :: level.before
    levels
    problems := b.problems ++ [line] }

/-- Gives up round and square brackets as long as the test says so. -/
def giveUpWhile (test : Level → Bool) (line : Nat) : List Level → Building → Building
  | [], b => b
  | level :: levels, b =>
    if isRound level.opener && test level then
      giveUpWhile test line levels (giveUp line level levels b)
    else b

/-- The innermost level with this bracket can be closed: between it and here are only round
and square brackets, and for a round or square one no brace. -/
def canClose (opening : String) : List Level → Bool
  | [] => false
  | level :: levels =>
    level.opener.isSymbol opening || (isRound level.opener && canClose opening levels)

/-- Closes the innermost level. -/
def closeLevel (closer : Token) (b : Building) : Building :=
  match b.levels with
  | [] => b
  | level :: levels =>
    { b with here := group level.opener b.here.reverse closer :: level.before, levels }

/-- Leaves the token among the trees. -/
def Building.push (b : Building) (t : Token) : Building := { b with here := leaf t :: b.here }

/-- The innermost level is that of an `#if`. -/
def atConditional (b : Building) : Bool := b.levels.head?.any (·.opener.kind == .ifMark)

/-- Takes in one token. -/
def Building.add (b : Building) (t : Token) : Building :=
  if isOpener t then { b with here := [], levels := ⟨t, b.here⟩ :: b.levels }
  else if t.kind == .endMark then
    let b := giveUpWhile (fun _ => true) t.missedLine b.levels b
    if atConditional b then closeLevel t b else { b with problems := b.problems ++ [t.line] }
  else
    match opening? t with
    | some opening =>
      if canClose opening b.levels then
        closeLevel t
          (giveUpWhile (fun level => !level.opener.isSymbol opening) t.missedLine b.levels b)
      else { b with problems := b.problems ++ [t.line] }
    | none =>
      if t.isSymbol ";" then
        (giveUpWhile (fun level => !holdsSemicolons level) t.missedLine b.levels b).push t
      else b.push t

/-- Ends a text: brackets that are still open stay unclosed. -/
def Building.finish (lastLine : Nat) : List Level → Building → Building
  | [], b => b
  | level :: levels, b =>
    if isRound level.opener then finish lastLine levels (giveUp lastLine level levels b)
    else
      finish lastLine levels
        { here := unclosed level.opener b.here.reverse :: level.before
          levels
          problems := b.problems ++ [level.opener.line] }

end Tree

/-- The trees of a text, and the lines on which its brackets do not match. -/
structure Forest where
  trees : List Tree
  problems : List Nat

def Forest.ofTokens (list : TokenList) : Forest :=
  let read := list.tokens.foldl Tree.Building.add {}
  let b := Tree.Building.finish list.lastLine read.levels read
  ⟨b.here.reverse, b.problems⟩

end Backfield.CSharp
