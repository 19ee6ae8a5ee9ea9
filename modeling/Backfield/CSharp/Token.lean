import Backfield.CSharp.Lexeme
import Backfield.Text.Lines

/-!
# Tokens

The lexemes that carry meaning, each with what stands before it and with its place.  The
source text from one token to another, comments included, can be had back from the tokens
(`Token.slice`).
-/

namespace Backfield.CSharp

structure Token where
  kind : LexemeKind
  text : String
  /-- The white space and the comments since the token before. -/
  gap : String
  /-- The line on which the token begins, counted from one. -/
  line : Nat
  /-- The line on which what is before the token ends, white space apart.  A token that is
  missing here is missed on this line. -/
  missedLine : Nat
  deriving DecidableEq, Repr

/-- The tokens of a text, and the line on which what is in it ends. -/
structure TokenList where
  tokens : List Token
  lastLine : Nat
  deriving DecidableEq, Repr

namespace Token

def isSymbol (t : Token) (symbol : String) : Bool := t.kind == .symbol && t.text == symbol

def isWord (t : Token) (word : String) : Bool := t.kind == .word && t.text == word

/-- A place in a text: the line, the line on which the last visible thing ended, and what
has been passed over since the last token. -/
structure Place where
  line : Nat := 1
  missedLine : Nat := 1
  gap : List Char := []
  deriving DecidableEq, Repr

/-- The place after a lexeme that is no token. -/
def Place.pass (place : Place) (lexeme : Lexeme) : Place :=
  let line := place.line + lexeme.text.count '\n'
  { line
    missedLine := if lexeme.kind == .blank then place.missedLine else line
    gap := place.gap ++ lexeme.text }

/-- The place after a token. -/
def Place.passToken (place : Place) (lexeme : Lexeme) : Place :=
  let line := place.line + lexeme.text.count '\n'
  { line, missedLine := line, gap := [] }

/-- The token that a lexeme is at a place. -/
def ofLexeme (place : Place) (lexeme : Lexeme) : Token :=
  ⟨lexeme.kind, String.ofList lexeme.text, String.ofList place.gap, place.line, place.missedLine⟩

/-- The lexeme only separates tokens. -/
def isTrivia (lexeme : Lexeme) : Bool :=
  lexeme.kind == .blank || lexeme.kind == .comment || lexeme.kind == .directive

/-- The tokens of lexemes that begin at a place. -/
def ofLexemes : Place → List Lexeme → TokenList
  | place, [] => ⟨[], place.missedLine⟩
  | place, lexeme :: rest =>
    if isTrivia lexeme then ofLexemes (place.pass lexeme) rest
    else
      let next := ofLexemes (place.passToken lexeme) rest
      { next with tokens := ofLexeme place lexeme :: next.tokens }

/-- The tokens of a text. -/
def ofText (text : String) : TokenList := ofLexemes {} (Lexeme.ofText text.toList)

/-- The source text from the first of some successive tokens to the last. -/
def slice : List Token → String
  | [] => ""
  | first :: rest => first.text ++ String.join (rest.map fun t => t.gap ++ t.text)

end Token

end Backfield.CSharp
