import CaseScript.Assoc

/-!
# TOML documents

A document is a tree of tables. Besides its entries a table keeps how it came about, since that
decides what later lines may still add to it.
-/

namespace CaseScript
namespace Toml

inductive Origin where
  /-- Named on the way to another table only. -/
  | implicit
  /-- Opened by a header of its own. -/
  | header
  /-- Named on the way to the last part of a dotted key. -/
  | dotted
  /-- Written between braces, and complete with the closing one. -/
  | inline
  deriving DecidableEq, Repr

/-- A number with a fraction or an exponent, or one of the special values. -/
inductive Decimal where
  /-- `digits` times ten to the power of `exponent`. -/
  | finite (digits : Nat) (exponent : Int)
  | infinity
  | nan
  deriving DecidableEq, Repr

/-- Of dates and times only the kind is kept. -/
inductive Moment where
  | date
  | dateTime
  | time
  deriving DecidableEq, Repr

inductive Value where
  | string (s : String)
  | int (n : Int)
  | bool (b : Bool)
  | real (x : Decimal)
  | moment (kind : Moment)
  | array (items : List Value)
  | table (origin : Origin) (entries : List (String × Value))
  /-- An array of tables, each under a header of its own; the last comes first. -/
  | tables (elements : List (List (String × Value)))
  deriving Inhabited

abbrev Entries := List (String × Value)

namespace Decimal

/-- Does the nearest double-precision number equal zero? Half of the least positive one still rounds
to zero. The first two bounds spare the comparison of huge powers. -/
def roundsToZero : Decimal → Bool
  | finite digits exponent =>
    let places := (Nat.toDigits 10 digits).length + exponent
    if digits = 0 then true
    else if places < -324 then true
    else if -322 ≤ places then false
    else digits * Nat.pow 2 1075 ≤ Nat.pow 10 (-exponent).toNat
  | _ => false

end Decimal

namespace Value

/-- Nothing, zero and what is empty count as false. -/
def isTruthy : Value → Bool
  | string s => !s.isEmpty
  | int n => n != 0
  | bool b => b
  | real x => !x.roundsToZero
  | moment _ => true
  | array items => !items.isEmpty
  | table _ entries => !entries.isEmpty
  | tables _ => true

/-- The name of the kind of a value, as messages give it. -/
def kind : Value → String
  | string _ => "str"
  | int _ => "int"
  | bool _ => "bool"
  | real _ => "float"
  | moment .date => "datetime.date"
  | moment .dateTime => "datetime.datetime"
  | moment .time => "datetime.time"
  | array _ | tables _ => "list"
  | table _ _ => "dict"

/-- The entries of a table. -/
def entries? : Value → Option Entries
  | table _ entries => some entries
  | _ => none

/-- The integer that a value counts as; truth counts as one. -/
def int? : Value → Option Int
  | int n => some n
  | bool b => some (if b then 1 else 0)
  | _ => none

end Value
end Toml
end CaseScript
