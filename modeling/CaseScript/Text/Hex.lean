/-!
# Hexadecimal digits
-/

namespace CaseScript
namespace Text

/-- `n` in lower-case digits, padded with zeros to `width` digits. -/
def hex (width n : Nat) : List Char :=
  let digits := Nat.toDigits 16 n
  List.replicate (width - digits.length) '0' ++ digits

/-- The value of a digit in either case. -/
def hexDigit? (c : Char) : Option Nat :=
  if c.isDigit then some (c.toNat - '0'.toNat)
  else if 'a' ≤ c ∧ c ≤ 'f' then some (c.toNat - 'a'.toNat + 10)
  else if 'A' ≤ c ∧ c ≤ 'F' then some (c.toNat - 'A'.toNat + 10)
  else none

example : hex 4 0xAD = ['0', '0', 'a', 'd'] := by decide +kernel

end Text
end CaseScript
