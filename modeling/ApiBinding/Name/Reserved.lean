/-! Words that the emitted language keeps for itself. -/

namespace ApiBinding.Name

def reservedWords : List String := [
  "abstract", "arguments", "await", "boolean", "break", "byte", "case", "catch", "char", "class",
  "const", "continue", "debugger", "default", "delete", "do", "double", "else", "enum", "eval",
  "export", "extends", "false", "final", "finally", "float", "for", "function", "goto", "if",
  "implements", "import", "in", "instanceof", "int", "interface", "let", "long", "native", "new",
  "null", "package", "private", "protected", "public", "return", "short", "static", "super",
  "switch", "synchronized", "this", "throw", "throws", "transient", "true", "try", "typeof",
  "var", "void", "volatile", "while", "with", "yield"]

/-- Whether a word can name neither a type nor a function. -/
def isReserved (word : String) : Bool :=
  reservedWords.contains word

end ApiBinding.Name
