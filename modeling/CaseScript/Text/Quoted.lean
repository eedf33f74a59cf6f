import CaseScript.Text.Hex
import CaseScript.Text.Printable

/-!
# Quoted texts

The form in which messages and tree listings quote a text: single quotes, or double quotes around a
text with an apostrophe and no double quote. The quote in use, the backslash and all unprintable
characters are escaped.
-/

namespace CaseScript
namespace Text

/-- The shortest of the escapes `\\xNN`, `\\uNNNN` and `\\UNNNNNNNN` for a code point. -/
def hexEscape (n : Nat) : List Char :=
  if n < 0x100 then '\\' :: 'x' :: hex 2 n
  else if n < 0x10000 then '\\' :: 'u' :: hex 4 n
  else '\\' :: 'U' :: hex 8 n

def quoteChar (t : Text) : Char :=
  if .scalar '\'' ∈ t ∧ .scalar '"' ∉ t then '"' else '\''

def quotedCodePoint (quote : Char) : CodePoint → List Char
  | .surrogate offset => hexEscape (CodePoint.surrogate offset).value
  | .scalar c =>
    if c = quote ∨ c = '\\' then ['\\', c]
    else if c = '\t' then ['\\', 't']
    else if c = '\n' then ['\\', 'n']
    else if c = '\r' then ['\\', 'r']
    else if isPrintable c then [c]
    else hexEscape c.toNat

def quoted (t : Text) : String :=
  let quote := quoteChar t
  String.ofList (quote :: t.flatMap (quotedCodePoint quote) ++ [quote])

/-- A list of texts in brackets. -/
def quotedList (ts : List Text) : String :=
  "[" ++ ", ".intercalate (ts.map quoted) ++ "]"

example : quoted (ofString "it's") = "\"it's\"" := by decide +kernel
example : quoted (ofString "a\n\u00AD") = "'a\\n\\xad'" := by decide +kernel

end Text
end CaseScript
