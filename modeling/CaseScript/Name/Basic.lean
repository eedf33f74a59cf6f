import CaseScript.Text.CodePoint

/-!
# Names

The names that a tree may declare, and the identifiers by which a script refers to them. A reserved
word becomes an identifier through a dollar sign at its end, which no name may hold.
-/

namespace CaseScript
namespace Name

/-- Letters, digits and the underscore, of ASCII only. -/
def isPart (c : Char) : Bool := c.isAlphanum || c == '_'

/-- A name does not begin with a digit. -/
def isHead (c : Char) : Bool := isPart c && !c.isDigit

def isPartPoint : CodePoint → Bool
  | .scalar c => isPart c
  | .surrogate _ => false

def isValid : Text → Bool
  | .scalar c :: rest => isHead c && rest.all isPartPoint
  | _ => false

/-- The words that a script cannot declare, and the globals that it relies on. -/
def reserved : List String :=
  ["await", "break", "case", "catch", "class", "const", "continue", "debugger", "default", "delete",
    "do", "else", "enum", "export", "extends", "false", "finally", "for", "function", "if",
    "implements", "import", "in", "instanceof", "interface", "let", "new", "null", "package",
    "private", "protected", "public", "return", "static", "super", "switch", "this", "throw",
    "true", "try", "typeof", "var", "void", "while", "with", "yield", "arguments", "eval",
    "undefined",
    "Array", "Error"]

/-- The identifier under which a script holds the subject of a match. It is no valid name. -/
def subject : String := "$"

/-- The identifier that stands for a valid name. -/
def identifier (name : Text) : String :=
  if name.shown ∈ reserved then name.shown ++ "$" else name.shown

/-- A part of a name in place of a code point that may be none. -/
def repaired : CodePoint → Char
  | .scalar c => if isPart c then c else '_'
  | .surrogate _ => '_'

/-- The nearest valid name: what cannot stand in a name becomes an underscore, and one more goes
before a leading digit or makes up for an empty name. -/
def suggestion (name : Text) : String :=
  match name.map repaired with
  | [] => "_"
  | c :: rest => if c.isDigit then String.ofList ('_' :: c :: rest) else String.ofList (c :: rest)

example : isValid (Text.ofString "_x1") = true := by decide +kernel
example : identifier (Text.ofString "class") = "class$" := by decide +kernel
example : suggestion (Text.ofString "1-é") = "_1__" := by decide +kernel

end Name
end CaseScript
