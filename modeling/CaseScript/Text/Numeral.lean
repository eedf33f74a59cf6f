import CaseScript.Limits
import CaseScript.Text.Blank

/-!
# Integers in running text

A numeral is an optional sign and decimal digits of any script, with single underscores between the
digits and blanks around the whole. One with too many digits is not read; zeros at its front count.
-/

namespace CaseScript
namespace Text

/-- The zeros of the decimal digit runs; the digits one to nine follow each of them. -/
def zeros : List Nat :=
  [0x0030, 0x0660, 0x06F0, 0x07C0, 0x0966, 0x09E6, 0x0A66, 0x0AE6, 0x0B66, 0x0BE6, 0x0C66, 0x0CE6,
    0x0D66, 0x0DE6, 0x0E50, 0x0ED0, 0x0F20, 0x1040, 0x1090, 0x17E0, 0x1810, 0x1946, 0x19D0, 0x1A80,
    0x1A90, 0x1B50, 0x1BB0, 0x1C40, 0x1C50, 0xA620, 0xA8D0, 0xA900, 0xA9D0, 0xA9F0, 0xAA50, 0xABF0,
    0xFF10, 0x104A0, 0x10D30, 0x11066, 0x110F0, 0x11136, 0x111D0, 0x112F0, 0x11450, 0x114D0,
    0x11650, 0x116C0, 0x11730, 0x118E0, 0x11950, 0x11C50, 0x11D50, 0x11DA0, 0x16A60, 0x16AC0,
    0x16B50, 0x1D7CE, 0x1D7D8, 0x1D7E2, 0x1D7EC, 0x1D7F6, 0x1E140, 0x1E2F0, 0x1E950, 0x1FBF0]

/-- The value of a decimal digit in any script. -/
def digit? (c : Char) : Option Nat :=
  (zeros.find? fun first => (Range.mk first (first + 9)).contains c.toNat).map (c.toNat - ·)

/-- The digits of `number` are already read; each underscore must have a digit on both sides. -/
def readDigits? (number : Nat) : List Char → Option Nat
  | [] => some number
  | '_' :: c :: rest => do readDigits? (10 * number + (← digit? c)) rest
  | c :: rest => do readDigits? (10 * number + (← digit? c)) rest

def readNat? : List Char → Option Nat
  | [] => none
  | c :: rest => do readDigits? (← digit? c) rest

def readSigned? : List Char → Option Int
  | '-' :: rest => (readNat? rest).map (-↑·)
  | '+' :: rest => (readNat? rest).map (↑·)
  | rest => (readNat? rest).map (↑·)

/-- The characters without the padding at both ends. -/
def unpadded (s : List Char) : List Char :=
  ((s.dropWhile isPadding).reverse.dropWhile isPadding).reverse

def readInt? (s : String) : Option Int :=
  let numeral := unpadded s.toList
  if mostDigits < numeral.countP fun c => (digit? c).isSome then none else readSigned? numeral

example : readInt? " -1_000 " = some (-1000) := by decide +kernel
example : readInt? "1__0" = none := by decide +kernel
example : readInt? "1_" = none := by decide +kernel

end Text
end CaseScript
