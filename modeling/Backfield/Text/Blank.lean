/-!
# White space

The blank characters, and `collapse`, which writes a text on one line with single spaces
however much white space it has.
-/

namespace Backfield.Text

/-- A blank character: a tab, a line or page break, one of the four ASCII separators or
a space of any width. -/
def isBlank (c : Char) : Bool :=
  let code := c.toNat
  (0x09 ≤ code && code ≤ 0x0d) || (0x1c ≤ code && code ≤ 0x20) || code == 0x85 ||
    code == 0xa0 || code == 0x1680 || (0x2000 ≤ code && code ≤ 0x200a) || code == 0x2028 ||
    code == 0x2029 || code == 0x202f || code == 0x205f || code == 0x3000

/-- Writes every run of blanks as one space.  `pending` holds whether the characters
just before are blank, so that their space has been written. -/
def squeezeFrom : Bool → List Char → List Char
  | _, [] => []
  | pending, c :: rest =>
    if isBlank c then
      if pending then squeezeFrom true rest else ' ' :: squeezeFrom true rest
    else c :: squeezeFrom false rest

/-- Drops the blanks at the end. -/
def dropBlanksEnd (text : List Char) : List Char :=
  (text.reverse.dropWhile isBlank).reverse

/-- Every run of blanks becomes one space, and both ends are trimmed. -/
def collapse (text : String) : String :=
  String.ofList (dropBlanksEnd ((squeezeFrom false text.toList).dropWhile isBlank))

/-- The text without its spaces (U+0020 only). -/
def dropSpaces (text : String) : String := String.ofList (text.toList.filter (· != ' '))

end Backfield.Text
