import Backfield.Value

/-!
# Reading JSON

Turns the text of a JSON document into a `Value`.  A number without a fraction and an
exponent is whole.  The words for what is no number, or larger than all, are numbers here.
If an object has a key twice, the later value takes the place of the earlier one.
-/

namespace Backfield.Json

def isSpace (c : Char) : Bool := c == ' ' || c == '\n' || c == '\t' || c == '\r'

def skipSpace (text : List Char) : List Char := text.dropWhile isSpace

def isDigit (c : Char) : Bool := '0' ≤ c && c ≤ '9'

/-- The value of a digit of base sixteen. -/
def hexValue? (c : Char) : Option Nat :=
  if isDigit c then some (c.toNat - 48)
  else if 'a' ≤ c && c ≤ 'f' then some (c.toNat - 87)
  else if 'A' ≤ c && c ≤ 'F' then some (c.toNat - 55)
  else none

/-- Four digits of base sixteen. -/
def hexFour : List Char → Option (Nat × List Char)
  | a :: b :: c :: d :: rest => do
    let a ← hexValue? a
    let b ← hexValue? b
    let c ← hexValue? c
    let d ← hexValue? d
    return (((a * 16 + b) * 16 + c) * 16 + d, rest)
  | _ => none

/-- What follows `\u`: a code unit, or two that make up one character. -/
def unicodeEscape (text : List Char) : Option (Char × List Char) := do
  let (unit, rest) ← hexFour text
  if 0xd800 ≤ unit && unit < 0xdc00 then
    match rest with
    | '\\' :: 'u' :: rest =>
      let (low, rest) ← hexFour rest
      if 0xdc00 ≤ low && low < 0xe000 then
        return (Char.ofNat (0x10000 + (unit - 0xd800) * 0x400 + (low - 0xdc00)), rest)
      else none
    | _ => none
  else if 0xdc00 ≤ unit && unit < 0xe000 then none
  else return (Char.ofNat unit, rest)

/-- The character that a letter after a backslash stands for. -/
def simpleEscape? (c : Char) : Option Char :=
  if c == '"' || c == '\\' || c == '/' then some c
  else if c == 'b' then some (Char.ofNat 8)
  else if c == 'f' then some (Char.ofNat 12)
  else if c == 'n' then some '\n'
  else if c == 'r' then some '\r'
  else if c == 't' then some '\t'
  else none

/-- The characters up to the closing quote. -/
def characters : (fuel : Nat) → List Char → List Char → Option (String × List Char)
  | 0, _, _ => none
  | _, _, [] => none
  | fuel + 1, done, c :: rest =>
    if c == '"' then some (String.ofList done.reverse, rest)
    else if c == '\\' then
      match rest with
      | 'u' :: rest => do
        let (c, rest) ← unicodeEscape rest
        characters fuel (c :: done) rest
      | e :: rest => do
        let c ← simpleEscape? e
        characters fuel (c :: done) rest
      | [] => none
    else if c.toNat < 0x20 then none
    else characters fuel (c :: done) rest

def digitsValue (digits : List Char) : Nat :=
  digits.foldl (fun value c => value * 10 + (c.toNat - 48)) 0

/-- The digits that a text begins with; there is at least one. -/
def digits (text : List Char) : Option (List Char × List Char) :=
  let found := text.takeWhile isDigit
  if found.isEmpty then none else some (found, text.dropWhile isDigit)

/-- The digits before the point.  No zero stands before another digit. -/
def wholeDigits (text : List Char) : Option (List Char × List Char) := do
  let (found, rest) ← digits text
  if 1 < found.length && found.head? == some '0' then none else return (found, rest)

/-- The point and the digits after it, if there is a point. -/
def fraction (text : List Char) : Option (Option (List Char) × List Char) :=
  match text with
  | '.' :: rest => (digits rest).map fun (found, rest) => (some found, rest)
  | _ => some (none, text)

/-- The power of ten, if there is one. -/
def exponent (text : List Char) : Option (Option Int × List Char) :=
  match text with
  | [] => some (none, [])
  | c :: rest =>
    if c == 'e' || c == 'E' then
      match rest with
      | '-' :: rest =>
        (digits rest).map fun (found, rest) => (some (-(digitsValue found : Int)), rest)
      | '+' :: rest => (digits rest).map fun (found, rest) => (some (digitsValue found), rest)
      | _ => (digits rest).map fun (found, rest) => (some (digitsValue found), rest)
    else some (none, text)

/-- A number after its sign. -/
def number (isNegative : Bool) (text : List Char) : Option (Number × List Char) := do
  let (whole, rest) ← wholeDigits text
  let (decimals, rest) ← fraction rest
  let (power, rest) ← exponent rest
  if decimals.isNone && power.isNone then
    let n : Int := digitsValue whole
    return (.whole (if isNegative then -n else n), rest)
  else
    let decimals := decimals.getD []
    let power := power.getD 0 - decimals.length
    return (.double (.ofDecimal isNegative (digitsValue (whole ++ decimals)) power), rest)

/-- The rest of a text after a word. -/
def word (w : String) (text : List Char) : Option (List Char) :=
  if w.toList.isPrefixOf text then some (text.drop w.toList.length) else none

/-- A value that is no list and no object. -/
def scalar (fuel : Nat) (text : List Char) : Option (Value × List Char) :=
  match text with
  | '"' :: rest => (characters fuel [] rest).map fun (s, rest) => (.text s, rest)
  | 'N' :: _ => (word "NaN" text).map (.number (.double .nan), ·)
  | 'I' :: _ => (word "Infinity" text).map (.number (.double (.infinite false)), ·)
  | '-' :: 'I' :: _ => (word "-Infinity" text).map (.number (.double (.infinite true)), ·)
  | '-' :: rest => (number true rest).map fun (n, rest) => (.number n, rest)
  | 't' :: _ => (word "true" text).map (.bool true, ·)
  | 'f' :: _ => (word "false" text).map (.bool false, ·)
  | 'n' :: _ => (word "null" text).map (.null, ·)
  | _ => (number false text).map fun (n, rest) => (.number n, rest)

mutual

/-- A value, whose first character is the first of the text. -/
def value : (fuel : Nat) → List Char → Option (Value × List Char)
  | 0, _ => none
  | fuel + 1, text =>
    match text with
    | '[' :: rest =>
      match skipSpace rest with
      | ']' :: rest => some (.list [], rest)
      | rest => (items fuel [] rest).map fun (xs, rest) => (.list xs, rest)
    | '\x7b' :: rest =>
      match skipSpace rest with
      | '\x7d' :: rest => some (.object [], rest)
      | rest => (entries fuel [] rest).map fun (xs, rest) => (.object xs, rest)
    | text => scalar fuel text

/-- The items of a list up to its closing bracket; there is at least one. -/
def items : (fuel : Nat) → List Value → List Char → Option (List Value × List Char)
  | 0, _, _ => none
  | fuel + 1, done, text => do
    let (v, rest) ← value fuel text
    match skipSpace rest with
    | ',' :: rest => items fuel (v :: done) (skipSpace rest)
    | ']' :: rest => some ((v :: done).reverse, rest)
    | _ => none

/-- The entries of an object up to its closing brace; there is at least one. -/
def entries : (fuel : Nat) → List (String × Value) → List Char →
    Option (List (String × Value) × List Char)
  | 0, _, _ => none
  | fuel + 1, done, text =>
    match text with
    | '"' :: rest => do
      let (key, rest) ← characters fuel [] rest
      match skipSpace rest with
      | ':' :: rest =>
        let (v, rest) ← value fuel (skipSpace rest)
        let done := Value.put key v done
        match skipSpace rest with
        | ',' :: rest => entries fuel done (skipSpace rest)
        | '\x7d' :: rest => some (done, rest)
        | _ => none
      | _ => none
    | _ => none

end

/-- The value that a document holds.  Its length bounds the number of steps. -/
def parse? (text : String) : Option Value := do
  let chars := text.toList
  let (v, rest) ← value (chars.length + 1) (skipSpace chars)
  if (skipSpace rest).isEmpty then return v else none

end Backfield.Json
