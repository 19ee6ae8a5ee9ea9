/-!
# Keywords of C#

The reserved words, which are no names, and the words that modify a declaration.  All other
words with a meaning of their own keep it only in their place and are names elsewhere.
-/

namespace Backfield.CSharp.Keyword

/-- Words that stand for a type. -/
def types : List String :=
  ["bool", "byte", "sbyte", "char", "decimal", "double", "float", "int", "uint", "long", "ulong",
   "short", "ushort", "object", "string", "void"]

/-- Reserved words that modify a declaration. -/
def reservedModifiers : List String :=
  ["abstract", "const", "extern", "fixed", "internal", "new", "override", "private", "protected",
   "public", "readonly", "sealed", "static", "unsafe", "virtual", "volatile"]

/-- Words that modify a declaration although they may be names. -/
def contextualModifiers : List String := ["async", "file", "partial", "required"]

/-- Reserved words of no other list here. -/
def otherReserved : List String :=
  ["as", "base", "break", "case", "catch", "checked", "class", "continue", "default", "delegate",
   "do", "else", "enum", "event", "explicit", "false", "finally", "for", "foreach", "goto", "if",
   "implicit", "in", "interface", "is", "lock", "namespace", "null", "operator", "out", "params",
   "ref", "return", "sizeof", "stackalloc", "struct", "switch", "this", "throw", "true", "try",
   "typeof", "unchecked", "using", "while"]

def isType (word : String) : Bool := types.contains word

def isReservedModifier (word : String) : Bool := reservedModifiers.contains word

def isContextualModifier (word : String) : Bool := contextualModifiers.contains word

/-- A word that is no name, unless an at sign stands before it. -/
def isReserved (word : String) : Bool :=
  isType word || isReservedModifier word || otherReserved.contains word

end Backfield.CSharp.Keyword
