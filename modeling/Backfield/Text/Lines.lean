/-!
# Lines of a text

Where a text breaks into lines, and the indentation of a block of lines.
-/

namespace Backfield.Text

/-- A character that ends a line.  The pair `\r\n` ends one line, see `splitLinesFrom`. -/
def isLineBreak (c : Char) : Bool :=
  let code := c.toNat
  (0x0a ≤ code && code ≤ 0x0d) || (0x1c ≤ code && code ≤ 0x1e) || code == 0x85 ||
    code == 0x2028 || code == 0x2029

/-- The lines of a text without their breaks.  `line` holds the current line in reverse;
what follows the last break is a line only if it is not empty. -/
def splitLinesFrom : List Char → List Char → List (List Char)
  | line, [] => if line.isEmpty then [] else [line.reverse]
  | line, '\r' :: '\n' :: rest => line.reverse :: splitLinesFrom [] rest
  | line, c :: rest =>
    if isLineBreak c then line.reverse :: splitLinesFrom [] rest
    else splitLinesFrom (c :: line) rest

def splitLines (text : String) : List String :=
  (splitLinesFrom [] text.toList).map String.ofList

/-- Four spaces, the step of one level. -/
def indentStep : String := "    "

/-- Indents a line; an empty line stays empty. -/
def indentLine (line : String) : String := if line.isEmpty then "" else indentStep ++ line

/-- Moves a block one level to the right: its first line always, every later one unless
it is empty.  Whatever broke the lines, a newline joins them. -/
def indent (block : String) : String :=
  match splitLines (block ++ "\n") with
  | [] => indentStep
  | first :: rest => "\n".intercalate ((indentStep ++ first) :: rest.map indentLine)

end Backfield.Text
