import Backfield.CSharp.Keyword
import Backfield.CSharp.Token

/-!
# Tokens that cannot stand side by side

Expressions are not read in full.  What is wrong in most broken ones shows in two tokens
that follow one another: an operator without an operand, or two operands without an operator.
-/

namespace Backfield.CSharp.Neighbors

/-- Symbols after which an expression has to go on. -/
def openEnded : List String :=
  ["=", "+", "-", "/", "%", "^", "|", "~", "=>", "==", "!=", "<=", ">=", "&&", "||", "??", "<<",
   "+=", "-=", "*=", "/=", "%=", "&=", "|=", "^=", "<<=", ">>=", "??=", "->"]

/-- Symbols with which an expression cannot go on. -/
def closing : List String := [";", ",", ")", "]", "\x7d"]

/-- Words that a type may follow although they may be names. -/
def beforeType : List String :=
  ["partial", "async", "required", "scoped", "await", "and", "or", "not", "when", "from", "by",
   "on", "equals", "let", "where", "select", "join", "into", "yield", "orderby", "group", "file"]

/-- Words that may follow a literal. -/
def afterLiteral : List String :=
  ["is", "as", "and", "or", "when", "switch", "with", "in", "into", "on", "equals", "by", "select",
   "where", "orderby", "group", "join", "let", "from", "ascending", "descending", "else"]

/-- Words that a literal may follow. -/
def beforeLiteral : List String :=
  ["return", "case", "in", "is", "and", "or", "not", "when", "else", "await", "by", "on", "equals",
   "select", "where", "let", "orderby", "from", "join", "into", "group", "ref", "out", "yield",
   "do", "throw", "goto", "params"]

def isSymbolOf (t : Token) (symbols : List String) : Bool :=
  t.kind == .symbol && symbols.contains t.text

def isLiteral (t : Token) : Bool := t.kind == .number || t.kind == .literal

/-- The first token lacks what it has to be followed by. -/
def lacksOperand (a b : Token) : Bool :=
  (isSymbolOf a openEnded && isSymbolOf b closing) ||
    (isSymbolOf a [".", "::"] && b.kind != .word) ||
    (isSymbolOf a [","] && isSymbolOf b [")", ";"]) || (isSymbolOf a ["("] && isSymbolOf b [","])

/-- Between the two tokens an operator is missing. -/
def lacksOperator (a b : Token) : Bool :=
  (isLiteral a && (isLiteral b || (b.kind == .word && !afterLiteral.contains b.text))) ||
    (a.kind == .word && !beforeLiteral.contains a.text && isLiteral b)

/-- A name is followed by a type, so that what stands before it has not been ended. -/
def lacksEnd (a b : Token) : Bool :=
  a.kind == .word && !Keyword.isReserved a.text && !beforeType.contains a.text &&
    b.kind == .word && Keyword.isType b.text

/-- The lines on which a token and the next one do not fit together. -/
def problems : List Token → List Nat
  | a :: b :: rest =>
    (if lacksOperand a b || lacksEnd a b then [b.missedLine]
     else if lacksOperator a b then [b.line] else []) ++ problems (b :: rest)
  | _ => []

end Backfield.CSharp.Neighbors
