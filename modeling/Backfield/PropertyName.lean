import Backfield.Text.CharClass

/-!
# Property names

The name of the property that is generated for a backing field: one leading underscore
is dropped, unless the field is nothing else, and an ASCII letter in front becomes upper
case.  No other character changes.
-/

namespace Backfield

/-- The underscore that marks a backing field. -/
def fieldMark : Char := '_'

/-- The upper case of an ASCII letter; any other character as it is. -/
def upperAscii (c : Char) : Char :=
  if 'a' ≤ c && c ≤ 'z' then Char.ofNat (c.toNat - 32) else c

/-- Drops one leading underscore that something follows. -/
def dropFieldMark : List Char → List Char
  | c :: d :: rest => if c == fieldMark then d :: rest else c :: d :: rest
  | name => name

def upperFirst : List Char → List Char
  | [] => []
  | c :: rest => upperAscii c :: rest

/-- The property name for a backing field. -/
def propertyName (field : String) : String :=
  String.ofList (upperFirst (dropFieldMark field.toList))

end Backfield
