/-!
# Names of variables

A name starts with a letter or an underscore and goes on with letters, digits and underscores, all ASCII. The
words of the script language and the names of its built-in functions and objects are never variables of a
notebook.
-/
namespace ReactiveNotebook.Analysis

def isNameStart (c : Char) : Bool := c.isAlpha || c == '_'

def isNameRest (c : Char) : Bool := c.isAlphanum || c == '_'

/-- Words of the script language, and words it reserves. -/
def keywords : List String := [
  "let", "const", "if", "else", "switch", "do", "while", "loop", "until", "for", "in", "continue",
  "break", "return", "throw", "try", "catch", "fn", "private", "import", "export", "as", "global",
  "this", "true", "false", "Fn", "call", "curry", "is_shared", "is_def_var", "is_def_fn",
  "type_of", "print", "debug", "eval", "var", "static", "shared", "with", "is", "goto", "exit",
  "match", "case", "public", "protected", "new", "use", "module", "package", "super",
  "thread", "spawn", "go", "sync", "async", "await", "yield", "default", "void", "null", "nil"]

/-- Names of built-in functions, and names kept for objects of the host. -/
def builtinNames : List String := [
  "exports", "require", "storage_get", "storage_has", "storage_keys", "storage_set", "output",
  "console", "Math", "math", "module", "global", "window", "document", "undefined", "NaN",
  "Infinity", "PI", "E", "abs", "sqrt", "floor", "ceiling", "round", "int", "fraction", "min",
  "max", "sin", "cos", "tan", "exp", "ln", "log", "pow", "len"]

def isKeyword (name : String) : Bool := keywords.contains name

/-- Whether a name is a keyword or built in. -/
def isReserved (name : String) : Bool := isKeyword name || builtinNames.contains name

def isNameShape : List Char → Bool
  | [] => false
  | c :: rest => isNameStart c && rest.all isNameRest

def isVariableName (name : String) : Bool :=
  isNameShape name.toList && !isReserved name

end ReactiveNotebook.Analysis
