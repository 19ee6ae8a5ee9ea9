/-!
# Searching text

Whether a word occurs in a text.
-/

namespace Backfield.Text

/-- The word occurs among the characters. -/
def occurs (word : List Char) : List Char → Bool
  | [] => word.isEmpty
  | c :: rest => word.isPrefixOf (c :: rest) || occurs word rest

/-- The word occurs in the text. -/
def contains (text word : String) : Bool := occurs word.toList text.toList

/-- The text ends with the word. -/
def endsWith (text word : String) : Bool := word.toList.isSuffixOf text.toList

end Backfield.Text
