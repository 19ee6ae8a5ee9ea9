import Backfield.Text.CharClass

/-!
# Literals

Where a literal ends.  Each function here gets the characters after what opens a literal and
gives what follows its end, or nothing if the literal is never closed.
-/

namespace Backfield.CSharp.Literal

/-! ## Plain literals -/

/-- The rest after a string between double quotes on one line. -/
def afterString : List Char → Option (List Char)
  | [] => none
  | '\\' :: _ :: rest => afterString rest
  | c :: rest => if c == '"' then some rest else if c == '\n' then none else afterString rest

/-- The rest after a verbatim string, in which a quote is written twice. -/
def afterVerbatim : List Char → Option (List Char)
  | [] => none
  | '"' :: '"' :: rest => afterVerbatim rest
  | c :: rest => if c == '"' then some rest else afterVerbatim rest

/-- The rest after the first run of at least `quotes` quotes, of which `run` stand directly
before; no more than `quotes` of them are passed over. -/
def afterQuotes (quotes : Nat) : (run : Nat) → List Char → Option (List Char)
  | _, [] => none
  | run, c :: rest =>
    if c == '"' then if run + 1 == quotes then some rest else afterQuotes quotes (run + 1) rest
    else afterQuotes quotes 0 rest

/-- The rest after an escape within a character literal: up to the closing quote. -/
def afterEscape : List Char → Option (List Char)
  | [] => none
  | c :: rest => if c == '\'' then some rest else if c == '\n' then none else afterEscape rest

/-- The rest after a character literal, which holds one character or one escape. -/
def afterChar : List Char → Option (List Char)
  | '\\' :: _ :: rest => afterEscape rest
  | c :: '\'' :: rest => if c == '\'' || c == '\n' then none else some rest
  | _ => none

/-- The rest after a comment between `/*` and `*/`. -/
def afterBlockComment : List Char → Option (List Char)
  | [] => none
  | '*' :: '/' :: rest => some rest
  | _ :: rest => afterBlockComment rest

/-- A character that ends a line comment and a directive. -/
def isLineEnd (c : Char) : Bool := c == '\n' || c == '\r'

/-- The rest of a text from the end of its first line on. -/
def afterLine (text : List Char) : List Char := text.dropWhile fun c => !isLineEnd c

/-- The length of the run of a character at the front. -/
def runLength (c : Char) (text : List Char) : Nat := (text.takeWhile (· == c)).length

/-! ## Interpolated strings -/

/-- How the text of an interpolated string is written. -/
inductive Style
  | regular
  | verbatim
  /-- Between this many quotes, with this many braces around a hole. -/
  | raw (braces quotes : Nat)
  deriving DecidableEq, Repr

def Style.braces : Style → Nat
  | raw braces _ => braces
  | _ => 1

/-- What is open while an interpolated string is read. -/
inductive Frame
  /-- The text of a string. -/
  | text (style : Style)
  /-- A hole that this many braces close. -/
  | hole (braces : Nat)
  /-- The format at the end of such a hole. -/
  | format (braces : Nat)
  /-- A bracket within a hole. -/
  | bracket
  deriving DecidableEq, Repr

/-- One step: what is open afterwards, and the rest of the text. -/
abbrev Step := Option (List Frame × List Char)

/-- Reads on within the text of a string. -/
def stepText (style : Style) (frames : List Frame) : List Char → Step
  | [] => none
  | c :: rest =>
    let here := Frame.text style :: frames
    match style with
    | .raw braces quotes =>
      if c == '"' then
        let run := runLength '"' (c :: rest)
        if quotes ≤ run then some (frames, (c :: rest).drop quotes)
        else some (here, (c :: rest).drop run)
      else if c == '\x7b' then
        let run := runLength '\x7b' (c :: rest)
        if braces ≤ run then some (.hole braces :: here, (c :: rest).drop run)
        else some (here, (c :: rest).drop run)
      else some (here, rest)
    | _ =>
      if c == '"' then
        if style == .verbatim && rest.head? == some '"' then some (here, rest.drop 1)
        else some (frames, rest)
      else if c == '\x7b' then
        if rest.head? == some '\x7b' then some (here, rest.drop 1)
        else some (.hole 1 :: here, rest)
      else if style == .regular && c == '\\' then some (here, rest.drop 1)
      else if style == .regular && c == '\n' then none
      else some (here, rest)

/-- The interpolated string that a text opens with, and the rest after its quotes.
`dollars` counts the dollar signs before. -/
def opensInterpolated? (dollars : Nat) (text : List Char) : Option (Style × List Char) :=
  match text with
  | '@' :: '"' :: rest => some (.verbatim, rest)
  | '"' :: rest =>
    let quotes := runLength '"' text
    if 3 ≤ quotes then some (.raw dollars quotes, text.drop quotes)
    else if dollars == 1 then some (.regular, rest)
    else none
  | _ => none

/-- The string, character or comment that a text opens with and that has no hole: the rest
after it. -/
def afterPlain? (text : List Char) : Option (Option (List Char)) :=
  match text with
  | '@' :: '"' :: rest => some (afterVerbatim rest)
  | '"' :: rest =>
    let quotes := runLength '"' text
    if 3 ≤ quotes then some (afterQuotes quotes 0 (text.drop quotes)) else some (afterString rest)
  | '\'' :: rest => some (afterChar rest)
  | '/' :: '*' :: rest => some (afterBlockComment rest)
  | '/' :: '/' :: rest => some (some (afterLine rest))
  | _ => none

/-- The interpolated string that a text opens with, whichever mark comes first. -/
def interpolated? (text : List Char) : Option (Style × List Char) :=
  match text with
  | '@' :: '$' :: '"' :: rest => some (.verbatim, rest)
  | '$' :: _ =>
    let dollars := runLength '$' text
    opensInterpolated? dollars (text.drop dollars)
  | _ => none

/-- Reads on within a hole; `frames` holds what is open around its code.  `inner` tells
whether a bracket is open within the hole. -/
def stepCode (inner : Bool) (braces : Nat) (here frames : List Frame) (text : List Char) : Step :=
  match interpolated? text with
  | some (style, rest) => some (.text style :: here, rest)
  | none =>
    match afterPlain? text with
    | some rest? => rest?.map (here, ·)
    | none =>
      match text with
      | [] => none
      | ':' :: ':' :: rest => some (here, rest)
      | c :: rest =>
        if c == '(' || c == '[' || c == '\x7b' then some (.bracket :: here, rest)
        else if inner then
          if c == ')' || c == ']' || c == '\x7d' then some (frames, rest) else some (here, rest)
        else if c == '\x7d' then
          if braces ≤ runLength '\x7d' text then some (frames, text.drop braces) else none
        else if c == ':' then some (.format braces :: frames, rest)
        else some (here, rest)

/-- Reads on within the format of a hole. -/
def stepFormat (braces : Nat) (here frames : List Frame) (text : List Char) : Step :=
  match text with
  | [] => none
  | c :: rest =>
    if c == '\x7d' && braces ≤ runLength '\x7d' text then some (frames, text.drop braces)
    else some (here, rest)

/-- The rest after everything open is closed. -/
def afterFrames : (fuel : Nat) → List Frame → List Char → Option (List Char)
  | _, [], text => some text
  | 0, _, _ => none
  | fuel + 1, frame :: frames, text => do
    let (frames, text) ←
      match frame with
      | .text style => stepText style frames text
      | .hole braces => stepCode false braces (frame :: frames) frames text
      | .bracket => stepCode true 1 (frame :: frames) frames text
      | .format braces => stepFormat braces (frame :: frames) frames text
    afterFrames fuel frames text

/-- The rest after an interpolated string. -/
def afterInterpolated (style : Style) (text : List Char) : Option (List Char) :=
  afterFrames text.length [.text style] text

end Backfield.CSharp.Literal
