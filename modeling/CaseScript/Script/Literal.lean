import CaseScript.Expr.Basic
import CaseScript.Limits
import CaseScript.Text.Hex

/-!
# Literals of a script

A string literal is written in printable ASCII: every other code unit of UTF-16 becomes an escape.
-/

namespace CaseScript
namespace Script

def unitEscape (n : Nat) : List Char := '\\' :: 'u' :: Text.hex 4 n

/-- The escape that is one letter long, where there is one. -/
def shortEscape? : Char → Option Char
  | '"' => some '"'
  | '\\' => some '\\'
  | '\n' => some 'n'
  | '\r' => some 'r'
  | '\t' => some 't'
  | '\x0c' => some 'f'
  | '\x08' => some 'b'
  | _ => none

def literalPoint (p : CodePoint) : List Char :=
  match shortEscape? p.shown with
  | some letter => ['\\', letter]
  | none =>
    if 0x20 ≤ p.value ∧ p.value < 0x7F then [p.shown] else p.units.flatMap unitEscape

def stringLiteral (t : Text) : String :=
  String.ofList ('"' :: t.flatMap literalPoint ++ ['"'])

example : stringLiteral [.scalar 'a', .scalar '\n', .scalar '😀', .surrogate 61] =
    "\"a\\n\\ud83d\\ude00\\ud83d\"" := by decide +kernel

end Script

/-- Can a literal be written down? An integer with too many digits cannot. -/
def Literal.fits : Literal → Bool
  | int value => !isOversized value
  | _ => true

/-- A literal as a script writes it, if it can be written down. -/
def Literal.written : Literal → String
  | int value => toString value
  | string value => Script.stringLiteral value
  | bool value => if value then "true" else "false"

/-- A sign is written before the digits of a negative number. -/
theorem Literal.written_int (n : Int) :
    (int n).written = if 0 ≤ n then toString n.toNat else "-" ++ toString (-n).toNat :=
  Int.repr_eq_if

end CaseScript
