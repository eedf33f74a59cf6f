import CaseScript.Json.Lexeme
import CaseScript.Script.Literal

/-!
# Reading string literals

A string literal of JavaScript denotes a list of code units of UTF-16. It is read up to its closing
quote: a backslash begins an escape, and a newline inside is an error. What is written for a text is
read back to the code units of the text.
-/

namespace CaseScript

namespace Text

theorem hexDigit?_digitChar {d : Nat} (h : d < 16) : hexDigit? (Nat.digitChar d) = some d := by
  have hall : ∀ d : Fin 16, hexDigit? (Nat.digitChar d) = some (d : Nat) := by decide +kernel
  exact hall ⟨d, h⟩

/-- The four digits of a number of 16 bits. -/
theorem hex_four {n : Nat} (h : n < 0x10000) :
    hex 4 n = [Nat.digitChar (n / 0x1000), Nat.digitChar (n / 0x100 % 0x10),
      Nat.digitChar (n / 0x10 % 0x10), Nat.digitChar (n % 0x10)] := by
  have hzero : '0' = Nat.digitChar 0 := rfl
  unfold hex
  rw [hzero]
  by_cases h1 : n < 0x10
  · have hdigits : Nat.toDigits 16 n = [Nat.digitChar n] := Nat.toDigits_of_lt_base h1
    have hdiv : n / 0x1000 = 0 ∧ n / 0x100 % 0x10 = 0 ∧ n / 0x10 % 0x10 = 0 ∧ n % 0x10 = n := by
      omega
    rw [hdigits, hdiv.1, hdiv.2.1, hdiv.2.2.1, hdiv.2.2.2]
    rfl
  have hfirst := Nat.toDigits_eq_if (b := 16) (n := n) (by decide)
  rw [if_neg h1] at hfirst
  by_cases h2 : n < 0x100
  · have hdigits := Nat.toDigits_of_lt_base (b := 16) (n := n / 16) (by omega)
    have hdiv : n / 0x1000 = 0 ∧ n / 0x100 % 0x10 = 0 ∧ n / 0x10 % 0x10 = n / 16 := by omega
    rw [hfirst, hdigits, hdiv.1, hdiv.2.1, hdiv.2.2]
    rfl
  have hsecond := Nat.toDigits_eq_if (b := 16) (n := n / 16) (by decide)
  rw [if_neg (by omega), Nat.div_div_eq_div_mul] at hsecond
  by_cases h3 : n < 0x1000
  · have hdigits := Nat.toDigits_of_lt_base (b := 16) (n := n / (16 * 16)) (by omega)
    have hdiv : n / 0x1000 = 0 ∧ n / 0x100 % 0x10 = n / (16 * 16) := by omega
    rw [hfirst, hsecond, hdigits, hdiv.1, hdiv.2]
    rfl
  · have hthird := Nat.toDigits_eq_if (b := 16) (n := n / (16 * 16)) (by decide)
    rw [if_neg (by omega), Nat.div_div_eq_div_mul] at hthird
    have hdigits := Nat.toDigits_of_lt_base (b := 16) (n := n / (16 * 16 * 16)) (by omega)
    rw [hfirst, hsecond, hthird, hdigits]
    rfl

theorem hexUnit?_hex {n : Nat} (h : n < 0x10000) :
    Json.hexUnit? (Nat.digitChar (n / 0x1000)) (Nat.digitChar (n / 0x100 % 0x10))
      (Nat.digitChar (n / 0x10 % 0x10)) (Nat.digitChar (n % 0x10)) = some n := by
  unfold Json.hexUnit?
  rw [hexDigit?_digitChar (by omega), hexDigit?_digitChar (by omega),
    hexDigit?_digitChar (by omega), hexDigit?_digitChar (by omega)]
  apply congrArg some
  omega

end Text

/-! ## Code units -/

namespace CodePoint

theorem value_lt (p : CodePoint) : p.value < 0x110000 := by
  cases p with
  | scalar c =>
    have hvalid := c.valid
    unfold UInt32.isValidChar Nat.isValidChar at hvalid
    change c.val.toNat < _
    omega
  | surrogate offset =>
    have hlt := offset.isLt
    rw [value]
    omega

theorem unit_lt {p : CodePoint} {n : Nat} (h : n ∈ p.units) : n < 0x10000 := by
  have hvalue := p.value_lt
  unfold units at h
  split at h
  · rw [List.mem_singleton] at h
    omega
  · rw [List.mem_cons, List.mem_singleton] at h
    omega

end CodePoint

namespace Text

/-- Is every code point a character? -/
def IsScalar (t : Text) : Prop := ∀ p ∈ t, ∃ c, p = .scalar c

/-- The text that is written by code units, where two surrogates that belong together write one
character. -/
def ofUnits : List Nat → Text
  | [] => []
  | [unit] => [.ofUnit unit]
  | high :: low :: rest =>
    if Json.isHighSurrogate high && Json.isLowSurrogate low then .ofPair high low :: ofUnits rest
    else .ofUnit high :: ofUnits (low :: rest)

theorem ofUnits_cons {unit : Nat} (h : Json.isHighSurrogate unit = false) (rest : List Nat) :
    ofUnits (unit :: rest) = .ofUnit unit :: ofUnits rest := by
  cases rest with
  | nil => rfl
  | cons next rest => rw [ofUnits, h, Bool.false_and, if_neg (by decide)]

theorem ofUnits_units {t : Text} (h : t.IsScalar) : ofUnits t.units = t := by
  induction t with
  | nil => rfl
  | cons p t ih =>
    obtain ⟨⟨c, rfl⟩, ht⟩ := List.forall_mem_cons.mp h
    have hvalue := (CodePoint.scalar c).value_lt
    have hvalid : c.toNat < 0xD800 ∨ 0xDFFF < c.toNat := by
      rcases c.valid with hlow | ⟨hhigh, -⟩
      · exact .inl hlow
      · exact .inr hhigh
    rw [CodePoint.value_scalar] at hvalue
    rw [units_cons, CodePoint.units, CodePoint.value_scalar]
    split
    · have hhigh : Json.isHighSurrogate c.toNat = false := by
        simp only [Json.isHighSurrogate, Bool.and_eq_false_iff, decide_eq_false_iff_not]
        omega
      have hunit : CodePoint.ofUnit c.toNat = .scalar c := by
        rw [CodePoint.ofUnit, if_neg (by omega), Char.ofNat_toNat]
      rw [List.singleton_append, ofUnits_cons hhigh, hunit, ih ht]
    · have hpair : (Json.isHighSurrogate (0xD800 + (c.toNat - 0x10000) / 0x400) &&
          Json.isLowSurrogate (0xDC00 + (c.toNat - 0x10000) % 0x400)) = true := by
        simp only [Json.isHighSurrogate, Json.isLowSurrogate, Bool.and_eq_true, decide_eq_true_eq]
        omega
      have hvalue : 0x10000 + (0xD800 + (c.toNat - 0x10000) / 0x400 - 0xD800) * 0x400 +
          (0xDC00 + (c.toNat - 0x10000) % 0x400 - 0xDC00) = c.toNat := by omega
      rw [List.cons_append, List.singleton_append, ofUnits, if_pos hpair, CodePoint.ofPair, hvalue,
        Char.ofNat_toNat, ih ht]

end Text

namespace Js

open Text

/-! ## The grammar of string literals -/

/-- What a single character behind a backslash stands for; most stand for themselves. -/
def singleEscape : Char → Char
  | 'b' => '\x08'
  | 't' => '\t'
  | 'n' => '\n'
  | 'v' => '\x0b'
  | 'f' => '\x0c'
  | 'r' => '\r'
  | c => c

def isLineTerminator (c : Char) : Bool :=
  c == '\n' || c == '\r' || c == '\u2028' || c == '\u2029'

/-- The number whose further hexadecimal digits are closed by a brace. -/
def bracedHex? (value : Nat) : List Char → Option (Nat × List Char)
  | [] => none
  | c :: rest =>
    if c = '\x7d' then some (value, rest)
    else
      match hexDigit? c with
      | none => none
      | some digit => bracedHex? (0x10 * value + digit) rest

/-- The code units of an escape that begins with the letter `u`, which has been read. -/
def unicodeEscape? (s : List Char) : Option (List Nat × List Char) :=
  match s with
  | a :: b :: c :: d :: rest =>
    if a = '\x7b' then
      match hexDigit? b with
      | none => none
      | some digit =>
        match bracedHex? digit (c :: d :: rest) with
        | none => none
        | some (value, rest) =>
          if value ≤ 0x10FFFF then some ((CodePoint.ofUnit value).units, rest) else none
    else (Json.hexUnit? a b c d).map fun unit => ([unit], rest)
  | [a, b, c] =>
    match hexDigit? b with
    | some digit => if a = '\x7b' ∧ c = '\x7d' then some ([digit], []) else none
    | none => none
  | _ => none

/-- The code unit of an escape that begins with the letter `x`, which has been read. -/
def hexEscape? : List Char → Option (List Nat × List Char)
  | a :: b :: rest =>
    match hexDigit? a, hexDigit? b with
    | some high, some low => some ([0x10 * high + low], rest)
    | _, _ => none
  | _ => none

/-- The code units of an escape whose backslash has been read. An escaped line terminator stands for
nothing, and the only escaped digit is a zero that no other digit follows. -/
def escape? : List Char → Option (List Nat × List Char)
  | [] => none
  | c :: rest =>
    if c = 'u' then unicodeEscape? rest
    else if c = 'x' then hexEscape? rest
    else if c.isDigit then
      if c = '0' ∧ rest.head?.any Char.isDigit = false then some ([0], rest) else none
    else if c = '\r' ∧ rest.head? = some '\n' then some ([], rest.tail)
    else if isLineTerminator c then some ([], rest)
    else some ((CodePoint.scalar (singleEscape c)).units, rest)

theorem length_of_bracedHex? {value result : Nat} {s rest : List Char}
    (h : bracedHex? value s = some (result, rest)) : rest.length < s.length := by
  induction s generalizing value with
  | nil => cases h
  | cons c s ih =>
    rw [bracedHex?] at h
    split at h
    · cases h
      simp
    · split at h
      · cases h
      · have hlt := ih h
        simp only [List.length_cons]
        omega

theorem length_of_unicodeEscape? {s rest : List Char} {units : List Nat}
    (h : unicodeEscape? s = some (units, rest)) : rest.length < s.length := by
  unfold unicodeEscape? at h
  split at h
  · split at h
    · split at h
      · cases h
      · split at h
        · cases h
        · rename_i hbraced
          split at h
          · cases h
            have hlt := length_of_bracedHex? hbraced
            simp only [List.length_cons] at hlt ⊢
            omega
          · cases h
    · obtain ⟨unit, -, heq⟩ := Option.map_eq_some_iff.mp h
      cases heq
      simp only [List.length_cons]
      omega
  · split at h
    · split at h
      · cases h
        simp
      · cases h
    · cases h
  · cases h

theorem length_of_hexEscape? {s rest : List Char} {units : List Nat}
    (h : hexEscape? s = some (units, rest)) : rest.length < s.length := by
  unfold hexEscape? at h
  split at h
  · split at h
    · cases h
      simp only [List.length_cons]
      omega
    · cases h
  · cases h

theorem length_of_escape? {s rest : List Char} {units : List Nat}
    (h : escape? s = some (units, rest)) : rest.length < s.length := by
  unfold escape? at h
  split at h
  · cases h
  · rename_i c s
    rw [List.length_cons]
    split at h
    · have hlt := length_of_unicodeEscape? h
      omega
    split at h
    · have hlt := length_of_hexEscape? h
      omega
    split at h
    · split at h
      · cases h
        omega
      · cases h
    split at h
    · cases h
      rw [List.length_tail]
      omega
    split at h
    · cases h
      omega
    · cases h
      omega

/-- Code units in front of those that were read. -/
def before (units : List Nat) (read : Option (List Nat × List Char)) :
    Option (List Nat × List Char) :=
  read.map fun found => (units ++ found.1, found.2)

@[simp] theorem before_nil (read : Option (List Nat × List Char)) : before [] read = read := by
  cases read <;> rfl

@[simp] theorem before_before (first second : List Nat) (read : Option (List Nat × List Char)) :
    before first (before second read) = before (first ++ second) read := by
  cases read with
  | none => rfl
  | some found => simp [before]

/-- The code units up to the closing quote of a literal whose opening quote has been read, and what
follows the literal. -/
def literalUnits? (s : List Char) : Option (List Nat × List Char) :=
  match s with
  | [] => none
  | c :: rest =>
    if c = '"' then some ([], rest)
    else if c = '\\' then
      match _hread : escape? rest with
      | none => none
      | some (units, after) => before units (literalUnits? after)
    else if c = '\n' ∨ c = '\r' then none
    else before (CodePoint.scalar c).units (literalUnits? rest)
termination_by s.length
decreasing_by
  · have hlt := length_of_escape? _hread
    simp only [List.length_cons]
    omega
  · simp

theorem length_of_literalUnits? {s rest : List Char} {units : List Nat}
    (h : literalUnits? s = some (units, rest)) : rest.length < s.length := by
  fun_induction literalUnits? s generalizing units with
  | case1 => cases h
  | case2 after =>
    cases h
    simp
  | case3 after hread => cases h
  | case4 text units' after hread hquote ih =>
    obtain ⟨found, hfound, heq⟩ := Option.map_eq_some_iff.mp h
    cases heq
    have hlt := ih hfound
    have hescape := length_of_escape? hread
    rw [List.length_cons]
    omega
  | case5 c after hquote hbackslash hline => cases h
  | case6 c after hquote hbackslash hline ih =>
    obtain ⟨found, hfound, heq⟩ := Option.map_eq_some_iff.mp h
    cases heq
    have hlt := ih hfound
    rw [List.length_cons]
    omega

/-! ## Literals are read back -/

theorem literalUnits?_quote (rest : List Char) : literalUnits? ('"' :: rest) = some ([], rest) := by
  rw [literalUnits?, if_pos rfl]

theorem literalUnits?_escape {s rest : List Char} {units : List Nat}
    (h : escape? s = some (units, rest)) :
    literalUnits? ('\\' :: s) = before units (literalUnits? rest) := by
  rw [literalUnits?, if_neg (by decide), if_pos rfl]
  split
  · rename_i hnone
    rw [h] at hnone
    cases hnone
  · rename_i hsome
    rw [h] at hsome
    cases hsome
    rfl

theorem literalUnits?_plain {c : Char} (h : c ≠ '"' ∧ c ≠ '\\' ∧ c ≠ '\n' ∧ c ≠ '\r')
    (rest : List Char) :
    literalUnits? (c :: rest) = before (CodePoint.scalar c).units (literalUnits? rest) := by
  rw [literalUnits?, if_neg h.1, if_neg h.2.1, if_neg (by simp [h.2.2])]

theorem literalUnits?_unitEscape {n : Nat} (h : n < 0x10000) (rest : List Char) :
    literalUnits? (Script.unitEscape n ++ rest) = before [n] (literalUnits? rest) := by
  have hbrace : ∀ d : Fin 16, Nat.digitChar d ≠ '\x7b' := by decide +kernel
  have hread : escape? ('u' :: (hex 4 n ++ rest)) = some ([n], rest) := by
    rw [escape?, if_pos rfl, hex_four h]
    simp only [List.cons_append, List.nil_append, unicodeEscape?]
    rw [if_neg (hbrace ⟨n / 0x1000, by omega⟩), hexUnit?_hex h]
    rfl
  rw [Script.unitEscape, List.cons_append, List.cons_append, literalUnits?_escape hread]

theorem literalUnits?_unitEscapes {units : List Nat} (h : ∀ n ∈ units, n < 0x10000)
    (rest : List Char) :
    literalUnits? (units.flatMap Script.unitEscape ++ rest) =
      before units (literalUnits? rest) := by
  induction units with
  | nil => simp
  | cons n more ih =>
    rw [List.forall_mem_cons] at h
    rw [List.flatMap_cons, List.append_assoc, literalUnits?_unitEscape h.1, ih h.2, before_before,
      List.singleton_append]

/-- The letter of a short escape is read as the character that it was written for. -/
theorem escape?_short {c letter : Char} (h : Script.shortEscape? c = some letter)
    (rest : List Char) : escape? (letter :: rest) = some ((CodePoint.scalar c).units, rest) := by
  have hletter : letter ≠ 'u' ∧ letter ≠ 'x' ∧ letter.isDigit = false ∧ letter ≠ '\r' ∧
      isLineTerminator letter = false ∧ singleEscape letter = c := by
    unfold Script.shortEscape? at h
    split at h <;> cases h <;> decide
  obtain ⟨hu, hx, hdigit, hreturn, hline, hsingle⟩ := hletter
  rw [escape?, if_neg hu, if_neg hx, hdigit, hline, hsingle]
  simp [hreturn]

theorem shortEscape?_eq_none {c : Char} (h : Script.shortEscape? c = none) :
    c ≠ '"' ∧ c ≠ '\\' ∧ c ≠ '\n' ∧ c ≠ '\r' := by
  refine ⟨?_, ?_, ?_, ?_⟩ <;> rintro rfl <;> exact absurd h (by decide)

theorem literalUnits?_point (p : CodePoint) (rest : List Char) :
    literalUnits? (Script.literalPoint p ++ rest) = before p.units (literalUnits? rest) := by
  unfold Script.literalPoint
  split
  · rename_i letter hshort
    cases p with
    | scalar c => exact literalUnits?_escape (escape?_short hshort rest)
    | surrogate offset =>
      have hnone : Script.shortEscape? (CodePoint.surrogate offset).shown = none := by
        rw [CodePoint.shown]
        decide
      rw [hnone] at hshort
      cases hshort
  · rename_i hshort
    split
    · rename_i hprintable
      cases p with
      | scalar c => exact literalUnits?_plain (shortEscape?_eq_none hshort) rest
      | surrogate offset =>
        simp only [CodePoint.value] at hprintable
        omega
    · exact literalUnits?_unitEscapes (fun n => CodePoint.unit_lt) rest

/-- What is written for a text and closed by a quote is read back to the code units of the text. -/
theorem literalUnits?_written (t : Text) (rest : List Char) :
    literalUnits? (t.flatMap Script.literalPoint ++ '"' :: rest) = some (t.units, rest) := by
  induction t with
  | nil => exact literalUnits?_quote rest
  | cons p t ih =>
    rw [List.flatMap_cons, List.append_assoc, literalUnits?_point, ih, Text.units_cons]
    rfl

end Js
end CaseScript
