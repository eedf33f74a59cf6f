/-!
# Limits

Bounds that are set from outside. A decimal integer is read and written only up to so many digits.
How deeply a text may be nested depends on the stack at the time, so that is told by predicates on
files.
-/

namespace CaseScript

/-- The most digits of a decimal integer. -/
def mostDigits : Nat := 4300

/-- The number of decimal digits of an integer. -/
def digitCount (n : Int) : Nat := (Nat.toDigits 10 n.natAbs).length

/-- Has an integer too many digits to be read or written? -/
def isOversized (n : Int) : Bool := mostDigits < digitCount n

/-- What is said of a numeral with too many digits. -/
def oversizedMessage (count : Nat) : String :=
  "Exceeds the limit (" ++ toString mostDigits ++
    " digits) for integer string conversion: value has " ++ toString count ++
    " digits; use sys.set_int_max_str_digits() to increase the limit"

/-- Which files the stack suffices for, from reading one to the end of the run. -/
structure Stack where
  settings : ByteArray → Bool := fun _ => true
  source : ByteArray → Bool := fun _ => true

end CaseScript
