/-!
# Reserved words

Words of the language that cannot be names of variables.  A name that is
reserved is made longer by underscores until it is free.
-/

namespace LocalTable.Naming

/-- Words that cannot be names of variables. -/
def reservedWords : List String :=
  [
    "abstract", "continue", "for", "new", "switch", "assert",
    "default", "if", "package", "synchronized", "boolean", "do",
    "goto", "private", "this", "break", "double", "implements",
    "protected", "throw", "byte", "else", "import", "public",
    "throws", "case", "enum", "instanceof", "return", "transient",
    "catch", "extends", "int", "short", "try", "char",
    "final", "interface", "static", "void", "class", "finally",
    "long", "strictfp", "volatile", "const", "float", "native",
    "super", "while", "_", "true", "false", "null",
    "var", "yield", "record", "sealed" ]

/-- The length of the longest reserved word. -/
def longestReserved : Nat := 12

theorem length_le_of_reserved {name : String}
    (reserved : reservedWords.contains name = true) :
    name.length ≤ longestReserved := by
  have bounded : ∀ word ∈ reservedWords, word.length ≤ longestReserved := by
    decide +kernel
  exact bounded name (by simpa using reserved)

/-- The name, made longer until it is not reserved. -/
def unreserved (name : String) : String :=
  if reserved : reservedWords.contains name = true then
    have := length_le_of_reserved reserved
    unreserved (name ++ "_")
  else
    name
termination_by longestReserved + 1 - name.length
decreasing_by
  rw [String.length_append, show "_".length = 1 by decide]
  omega

end LocalTable.Naming
