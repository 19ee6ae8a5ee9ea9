import Backfield.CSharp.Literal

/-!
# Lexemes

The pieces that a C# text is made of.  `Lexeme.ofText` cuts a text into lexemes and loses
nothing: their texts put together are the text.
-/

namespace Backfield.CSharp

inductive LexemeKind
  | blank
  | comment
  /-- A line for the compiler that does not touch declarations, such as `#region`. -/
  | directive
  /-- A name or a keyword. -/
  | word
  | number
  /-- A string or a character. -/
  | literal
  | symbol
  /-- `#if` with its condition. -/
  | ifMark
  /-- `#elif` with its condition, or `#else`. -/
  | elseMark
  /-- `#endif`. -/
  | endMark
  /-- A string, character or comment that is never closed. -/
  | unclosed
  /-- A character that C# has no use for. -/
  | stray
  deriving DecidableEq, Repr

structure Lexeme where
  kind : LexemeKind
  text : List Char
  deriving DecidableEq, Repr

namespace Lexeme

open Text (isAscii isAsciiLetter isAsciiDigit isIdentifierStart isIdentifierContinue)

/-! ## Words and numbers -/

/-- White space between tokens. -/
def isGap (c : Char) : Bool :=
  let code := c.toNat
  c == ' ' || (0x09 ≤ code && code ≤ 0x0d) || code == 0xa0 || code == 0x3000 || code == 0xfeff

def isHexDigit (c : Char) : Bool :=
  isAsciiDigit c || ('a' ≤ c && c ≤ 'f') || ('A' ≤ c && c ≤ 'F')

/-- The length of the Unicode escape that a text opens with, or zero. -/
def escapeLength : List Char → Nat
  | '\\' :: 'u' :: rest =>
    if 4 ≤ ((rest.take 4).filter isHexDigit).length then 6 else 0
  | '\\' :: 'U' :: rest =>
    if 8 ≤ ((rest.take 8).filter isHexDigit).length then 10 else 0
  | _ => 0

/-- The length of the rest of a name.  `skip` characters of it belong to an escape. -/
def nameLength : (skip : Nat) → List Char → Nat
  | _, [] => 0
  | skip + 1, _ :: rest => nameLength skip rest + 1
  | 0, c :: rest =>
    if isIdentifierContinue c then nameLength 0 rest + 1
    else
      match escapeLength (c :: rest) with
      | 0 => 0
      | n + 1 => nameLength n rest + 1

/-- The length of the name that a text opens with, or zero. -/
def wordLength : List Char → Nat
  | [] => 0
  | c :: rest =>
    if isIdentifierStart c then nameLength 0 rest + 1
    else
      match escapeLength (c :: rest) with
      | 0 => 0
      | n + 1 => nameLength n rest + 1

/-- A digit or an underscore between digits. -/
def isDigitPart (c : Char) : Bool := isAsciiDigit c || c == '_'

/-- The number of characters in front that satisfy a test. -/
def prefixLength (test : Char → Bool) (text : List Char) : Nat := (text.takeWhile test).length

def isSuffixLetter (c : Char) : Bool := "uUlLfFdDmM".toList.contains c

/-- The length of a fraction: a point with a digit after it. -/
def fractionLength : List Char → Nat
  | '.' :: c :: rest => if isAsciiDigit c then prefixLength isDigitPart rest + 2 else 0
  | _ => 0

/-- The length of an exponent. -/
def exponentLength : List Char → Nat
  | e :: c :: rest =>
    if e == 'e' || e == 'E' then
      if isAsciiDigit c then prefixLength isDigitPart rest + 2
      else if c == '+' || c == '-' then
        match prefixLength isDigitPart rest with
        | 0 => 0
        | n => n + 2
      else 0
    else 0
  | _ => 0

/-- The length of a number whose digits before the exponent are `n` characters. -/
def lengthWithExponent (text : List Char) (n : Nat) : Nat :=
  let n := n + exponentLength (text.drop n)
  n + prefixLength isSuffixLetter (text.drop n)

/-- The length of a decimal number that starts with a digit. -/
def decimalLength (text : List Char) : Nat :=
  let n := prefixLength isDigitPart text
  lengthWithExponent text (n + fractionLength (text.drop n))

/-- The length of a number in another base, whose mark of two characters is left out of
`rest`. -/
def markedLength (digit : Char → Bool) (rest : List Char) : Nat :=
  let n := prefixLength digit rest
  2 + n + prefixLength isSuffixLetter (rest.drop n)

/-- The length of the number that a text opens with, or zero. -/
def numberLength (text : List Char) : Nat :=
  match text with
  | '0' :: x :: rest =>
    if x == 'x' || x == 'X' then markedLength (fun c => isHexDigit c || c == '_') rest
    else if x == 'b' || x == 'B' then markedLength isDigitPart rest
    else decimalLength text
  | '.' :: _ =>
    match fractionLength text with
    | 0 => 0
    | n => lengthWithExponent text n
  | c :: _ => if isAsciiDigit c then decimalLength text else 0
  | [] => 0

/-! ## Symbols -/

/-- The symbols of more than one character, the longer ones first.  A closing angle bracket
is never joined to another, since it may end a list of type arguments. -/
def longSymbols : List (List Char) :=
  ["<<=", ">>=", "??=", "=>", "==", "!=", "<=", ">=", "&&", "||", "++", "--", "+=", "-=", "*=",
   "/=", "%=", "&=", "|=", "^=", "->", "::", "??", "<<", ".."].map String.toList

def isSymbolChar (c : Char) : Bool := "{}()[];,.:?=+-*/%&|^!~<>".toList.contains c

/-- The length of the symbol that a text opens with, or zero. -/
def symbolLength (text : List Char) : Nat :=
  match longSymbols.find? (·.isPrefixOf text) with
  | some symbol => symbol.length
  | none => if text.head?.any isSymbolChar then 1 else 0

/-! ## Directives -/

/-- The word after a number sign. -/
def directiveName (text : List Char) : String :=
  String.ofList ((text.dropWhile fun c => c == ' ' || c == '\t').takeWhile isAsciiLetter)

/-- The kind of line that a number sign opens. -/
def directiveKind (rest : List Char) : LexemeKind :=
  match directiveName rest with
  | "if" => .ifMark
  | "elif" => .elseMark
  | "else" => .elseMark
  | "endif" => .endMark
  | "region" => .directive
  | "endregion" => .directive
  | "nullable" => .directive
  | "pragma" => .directive
  | "define" => .directive
  | "undef" => .directive
  | "error" => .directive
  | "warning" => .directive
  | "line" => .directive
  | _ => if rest.head? == some '!' then .directive else .stray

/-! ## Cutting a text -/

/-- The number of characters of a text before a rest of it. -/
def lengthBefore (text rest : List Char) : Nat := text.length - rest.length

/-- A literal without holes or a comment at the front: its kind and length.  A literal that
is not closed ends at the end of its line if it has to be on one line, else with the text. -/
def plain? (text : List Char) : Option (LexemeKind × Nat) :=
  let isComment := text.head? == some '/'
  match Literal.afterPlain? text with
  | none => none
  | some (some rest) =>
    some (if isComment then .comment else .literal, lengthBefore text rest)
  | some none =>
    let oneLine := text.head? == some '\'' ||
      (text.head? == some '"' && Literal.runLength '"' text < 3)
    some (.unclosed, if oneLine then lengthBefore text (Literal.afterLine text) else text.length)

/-- An interpolated string at the front: its kind and length. -/
def interpolated? (text : List Char) : Option (LexemeKind × Nat) :=
  match Literal.interpolated? text with
  | none => none
  | some (style, inner) =>
    match Literal.afterInterpolated style inner with
    | some rest => some (.literal, lengthBefore text rest)
    | none =>
      some (.unclosed,
        if style == .regular then lengthBefore text (Literal.afterLine text) else text.length)

/-- The length of the suffix that gives a string in UTF-8. -/
def stringSuffixLength : List Char → Nat
  | u :: '8' :: rest =>
    if (u == 'u' || u == 'U') && wordLength rest == 0 then 2 else 0
  | _ => 0

/-- The kind of the first lexeme and its length, which is at least one. -/
def measure (c : Char) (rest : List Char) : LexemeKind × Nat :=
  let text := c :: rest
  if isGap c then (.blank, prefixLength isGap text)
  else
    match (plain? text).or (interpolated? text) with
    | some (.literal, n) => (.literal, n + stringSuffixLength (text.drop n))
    | some (kind, n) => (kind, n)
    | none =>
      if c == '#' then
        match directiveKind rest with
        | .stray => (.stray, 1)
        | kind => (kind, lengthBefore text (Literal.afterLine text))
      else if 0 < wordLength text then (.word, wordLength text)
      else if c == '@' && 0 < wordLength rest then (.word, wordLength rest + 1)
      else if 0 < numberLength text then (.number, numberLength text)
      else if 0 < symbolLength text then (.symbol, symbolLength text)
      else (.stray, 1)

/-- Cuts a text of at most `fuel` characters. -/
def cut : (fuel : Nat) → List Char → List Lexeme
  | 0, _ => []
  | _, [] => []
  | fuel + 1, c :: rest =>
    let (kind, n) := measure c rest
    ⟨kind, c :: rest.take (n - 1)⟩ :: cut fuel (rest.drop (n - 1))

/-- The lexemes of a text. -/
def ofText (text : List Char) : List Lexeme := cut text.length text

end Lexeme

/-- Cutting a text loses nothing. -/
theorem Lexeme.flatMap_cut (fuel : Nat) (text : List Char) (h : text.length ≤ fuel) :
    (cut fuel text).flatMap (·.text) = text := by
  induction fuel generalizing text with
  | zero => simp [List.length_eq_zero_iff.1 (Nat.le_zero.1 h), cut]
  | succ fuel ih =>
    cases text with
    | nil => simp [cut]
    | cons c rest =>
      have hrest : (rest.drop ((measure c rest).2 - 1)).length ≤ fuel := by
        simp only [List.length_drop, List.length_cons] at h ⊢
        omega
      simp [cut, ih _ hrest]

theorem Lexeme.flatMap_ofText (text : List Char) :
    (ofText text).flatMap (·.text) = text :=
  flatMap_cut _ _ (Nat.le_refl _)

end Backfield.CSharp
