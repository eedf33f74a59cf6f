import CaseScript.Limits
import CaseScript.Text.Hex
import CaseScript.Toml.Basic

/-!
# Numbers, dates and times of TOML

Each reader takes as much from the front of a text as it can and returns what is left.
-/

namespace CaseScript
namespace Toml

/-- Why a text is not read. -/
inductive ReadFault where
  | malformed
  /-- A numeral has `count` digits, which are too many. -/
  | oversized (count : Nat)
  deriving DecidableEq, Repr

def orMalformed {α : Type} (result? : Option α) : Except ReadFault α :=
  result?.elim (.error .malformed) .ok

/-! ## Digits -/

/-- Digits after a first one, with single underscores between them. -/
def moreDigits (isDigit : Char → Bool) : List Char → List Char × List Char
  | '_' :: c :: rest =>
    if isDigit c then
      let (digits, after) := moreDigits isDigit rest
      (c :: digits, after)
    else ([], '_' :: c :: rest)
  | c :: rest =>
    if isDigit c then
      let (digits, after) := moreDigits isDigit rest
      (c :: digits, after)
    else ([], c :: rest)
  | [] => ([], [])

/-- One digit at least. -/
def digits? (isDigit : Char → Bool) : List Char → Option (List Char × List Char)
  | c :: rest =>
    if isDigit c then
      let (digits, after) := moreDigits isDigit rest
      some (c :: digits, after)
    else none
  | [] => none

def isHexDigit (c : Char) : Bool := (Text.hexDigit? c).isSome

def isOctalDigit (c : Char) : Bool := '0' ≤ c && c ≤ '7'

def isBinaryDigit (c : Char) : Bool := c == '0' || c == '1'

/-- The number that digits write in a base. -/
def ofDigits (base : Nat) (digits : List Char) : Nat :=
  digits.foldl (fun n c => base * n + (Text.hexDigit? c).getD 0) 0

/-! ## Numbers -/

/-- An integer with the mark of its base in front. -/
def based? : List Char → Option (Value × List Char)
  | '0' :: 'x' :: rest =>
    (digits? isHexDigit rest).map fun (ds, after) => (.int (ofDigits 16 ds), after)
  | '0' :: 'o' :: rest =>
    (digits? isOctalDigit rest).map fun (ds, after) => (.int (ofDigits 8 ds), after)
  | '0' :: 'b' :: rest =>
    (digits? isBinaryDigit rest).map fun (ds, after) => (.int (ofDigits 2 ds), after)
  | _ => none

/-- A sign, if there is one. -/
def sign : List Char → Bool × List Char
  | '-' :: rest => (true, rest)
  | '+' :: rest => (false, rest)
  | s => (false, s)

/-- The whole part of a decimal number; no other number than zero begins with a zero. -/
def whole? : List Char → Option (List Char × List Char)
  | '0' :: rest => some (['0'], rest)
  | s => digits? Char.isDigit s

/-- The digits after a period, if a digit follows it. -/
def fraction? : List Char → Option (List Char × List Char)
  | '.' :: rest => digits? Char.isDigit rest
  | _ => none

/-- The number after the letter E, if there is one. -/
def exponent? : List Char → Option (Int × List Char)
  | c :: rest =>
    if c == 'e' || c == 'E' then
      let (negative, s) := sign rest
      (digits? Char.isDigit s).map fun (ds, after) =>
        (if negative then -(ofDigits 10 ds : Int) else ofDigits 10 ds, after)
    else none
  | [] => none

/-- A decimal number: an integer unless a fraction or an exponent follows. -/
def decimal? (s : List Char) : Option (Value × List Char) := do
  let (negative, unsigned) := sign s
  let (ds, rest) ← whole? unsigned
  match fraction? rest, exponent? rest with
  | some (more, afterFraction), _ =>
    let (e, after) := (exponent? afterFraction).getD (0, afterFraction)
    return (.real (.finite (ofDigits 10 (ds ++ more)) (e - more.length)), after)
  | none, some (e, after) => return (.real (.finite (ofDigits 10 ds) e), after)
  | none, none =>
    let n : Int := ofDigits 10 ds
    return (.int (if negative then -n else n), rest)

def special? (s : List Char) : Option (Value × List Char) :=
  match (sign s).2 with
  | 'i' :: 'n' :: 'f' :: rest => some (.real .infinity, rest)
  | 'n' :: 'a' :: 'n' :: rest => some (.real .nan, rest)
  | _ => none

/-! ## Dates and times -/

def isLeapYear (year : Nat) : Bool := year % 4 == 0 && (year % 100 != 0 || year % 400 == 0)

/-- The length of a month of the Gregorian calendar; no month has another number. -/
def daysIn (year month : Nat) : Nat :=
  match month with
  | 1 | 3 | 5 | 7 | 8 | 10 | 12 => 31
  | 4 | 6 | 9 | 11 => 30
  | 2 => if isLeapYear year then 29 else 28
  | _ => 0

/-- A number of exactly so many digits. -/
def fixed? (count : Nat) (s : List Char) : Option (Nat × List Char) :=
  let ds := s.take count
  if ds.length = count ∧ ds.all Char.isDigit then some (ofDigits 10 ds, s.drop count) else none

def expect? (c : Char) : List Char → Option (List Char)
  | first :: rest => if first = c then some rest else none
  | [] => none

/-- What follows a date. Years are numbered from one. -/
def afterDate? (s : List Char) : Option (List Char) := do
  let (year, s) ← fixed? 4 s
  let s ← expect? '-' s
  let (month, s) ← fixed? 2 s
  let s ← expect? '-' s
  let (day, s) ← fixed? 2 s
  if 1 ≤ year ∧ 1 ≤ day ∧ day ≤ daysIn year month then some s else none

/-- What follows hours and minutes. -/
def afterMinutes? (s : List Char) : Option (List Char) := do
  let (hour, s) ← fixed? 2 s
  let s ← expect? ':' s
  let (minute, s) ← fixed? 2 s
  if hour < 24 ∧ minute < 60 then some s else none

/-- What follows a time of day with seconds and perhaps a fraction of a second. -/
def afterTime? (s : List Char) : Option (List Char) := do
  let s ← afterMinutes? s
  let s ← expect? ':' s
  let (second, s) ← fixed? 2 s
  if second < 60 then
    match s with
    | '.' :: c :: rest => return if c.isDigit then rest.dropWhile Char.isDigit else s
    | _ => return s
  else none

/-- What follows the offset from universal time, if one is given. -/
def afterOffset (s : List Char) : List Char :=
  match s with
  | c :: rest =>
    if c == 'Z' || c == 'z' then rest
    else if c == '+' || c == '-' then (afterMinutes? rest).getD s
    else s
  | [] => s

def moment? (s : List Char) : Option (Value × List Char) :=
  match afterDate? s with
  | some rest =>
    match rest with
    | c :: time =>
      if c == 'T' || c == 't' || c == ' ' then
        match afterTime? time with
        | some after => some (.moment .dateTime, afterOffset after)
        | none => some (.moment .date, rest)
      else some (.moment .date, rest)
    | [] => some (.moment .date, [])
  | none => (afterTime? s).map fun rest => (.moment .time, rest)

/-- A date, a time or a number. Dates come first, since they begin like numbers. Of the numerals
only decimal integers may have too many digits. -/
def scalar (s : List Char) : Except ReadFault (Value × List Char) :=
  match (moment? s).or (based? s), decimal? s with
  | some result, _ => .ok result
  | none, some (.int n, after) =>
    if isOversized n then .error (.oversized (digitCount n)) else .ok (.int n, after)
  | none, some result => .ok result
  | none, none => orMalformed (special? s)

end Toml
end CaseScript
