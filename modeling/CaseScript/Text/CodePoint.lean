/-!
# Code points and texts

A text is a list of code points. Nearly all of them are characters, but an escape in a JSON string
can also name one half of a surrogate pair without the other; it stays a code point of its own, so
that a string literal can write it back.
-/

namespace CaseScript

/-- A character, or the surrogate U+D800 + `offset` standing alone. -/
inductive CodePoint where
  | scalar (c : Char)
  | surrogate (offset : Fin 0x800)
  deriving DecidableEq, Repr

namespace CodePoint

def value : CodePoint → Nat
  | scalar c => c.toNat
  | surrogate offset => 0xD800 + offset

/-- The code units of UTF-16: one for a code point below U+10000, a surrogate pair above. -/
def units (p : CodePoint) : List Nat :=
  if p.value < 0x10000 then [p.value]
  else [0xD800 + (p.value - 0x10000) / 0x400, 0xDC00 + (p.value - 0x10000) % 0x400]

/-- The code point written by a 16-bit number, which may be half of a surrogate pair. -/
def ofUnit (n : Nat) : CodePoint :=
  if 0xD800 ≤ n ∧ n < 0xE000 then surrogate (Fin.ofNat 0x800 (n - 0xD800))
  else scalar (Char.ofNat n)

/-- The character that a high and a low surrogate write together. -/
def ofPair (high low : Nat) : CodePoint :=
  scalar (Char.ofNat (0x10000 + (high - 0xD800) * 0x400 + (low - 0xDC00)))

/-- The code point as a character; a surrogate shows as the replacement character. -/
def shown : CodePoint → Char
  | scalar c => c
  | surrogate _ => '\uFFFD'

@[simp] theorem value_scalar (c : Char) : (scalar c).value = c.toNat := rfl

@[simp] theorem shown_scalar (c : Char) : (scalar c).shown = c := rfl

end CodePoint

/-- The text of a string value or a name. -/
abbrev Text := List CodePoint

namespace Text

def ofString (s : String) : Text := s.toList.map .scalar

/-- The text for a message; it loses nothing but lone surrogates. -/
def shown (t : Text) : String := String.ofList (t.map CodePoint.shown)

/-- The code units of UTF-16. -/
def units (t : Text) : List Nat := t.flatMap CodePoint.units

@[simp] theorem shown_ofString (s : String) : shown (ofString s) = s := by
  simp [shown, ofString, Function.comp_def, String.ofList_toList]

@[simp] theorem length_ofString (s : String) : (ofString s).length = s.length := by
  simp [ofString, String.length_toList]

@[simp] theorem units_nil : units [] = [] := rfl

@[simp] theorem units_cons (p : CodePoint) (t : Text) : units (p :: t) = p.units ++ units t := by
  simp [units]

@[simp] theorem units_append (s t : Text) : units (s ++ t) = units s ++ units t := by
  simp [units]

theorem ofString_injective {s t : String} (h : ofString s = ofString t) : s = t := by
  rw [← shown_ofString s, h, shown_ofString]

end Text
end CaseScript
