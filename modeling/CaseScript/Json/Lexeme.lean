import CaseScript.Json.Basic
import CaseScript.Limits
import CaseScript.Text.Hex

/-!
# Lexemes of JSON

A lexeme is read from the front of the text that is left. What cannot be read is a lexeme too,
because it depends on the place whether that matters: where a comma is due, a faulty string is just
something else than a comma.
-/

namespace CaseScript
namespace Json

inductive SyntaxFault.Cause where
  | byteOrderMark
  | noValue
  | noName
  | noColon
  | noComma
  | extraData
  | openString
  | controlCharacter
  | badEscape
  | badUnicodeEscape
  deriving DecidableEq, Repr

/-- Why a text is not JSON, and what is left of it from the place of the fault on. -/
structure SyntaxFault where
  cause : SyntaxFault.Cause
  rest : List Char
  deriving DecidableEq, Repr

def isSpace (c : Char) : Bool := c == ' ' || c == '\t' || c == '\n' || c == '\r'

/-! ## Strings -/

/-- The number that four hexadecimal digits write. -/
def hexUnit? (a b c d : Char) : Option Nat := do
  return 0x1000 * (← Text.hexDigit? a) + 0x100 * (← Text.hexDigit? b) +
    0x10 * (← Text.hexDigit? c) + (← Text.hexDigit? d)

def isHighSurrogate (n : Nat) : Bool := 0xD800 ≤ n && n < 0xDC00

def isLowSurrogate (n : Nat) : Bool := 0xDC00 ≤ n && n < 0xE000

/-- The code point of the escape whose hexadecimal digits come next. A high surrogate looks for its
partner in a second escape, and only there; both need a character after their digits. -/
def readUnicodeEscape (s : List Char) : Except SyntaxFault (CodePoint × List Char) :=
  match s with
  | a :: b :: c :: d :: e :: rest =>
    match hexUnit? a b c d with
    | none => .error ⟨.badUnicodeEscape, 'u' :: s⟩
    | some unit =>
      match isHighSurrogate unit, e :: rest with
      | true, '\\' :: 'u' :: a' :: b' :: c' :: d' :: e' :: after =>
        match hexUnit? a' b' c' d' with
        | none => .error ⟨.badUnicodeEscape, 'u' :: a' :: b' :: c' :: d' :: e' :: after⟩
        | some low =>
          if isLowSurrogate low then .ok (.ofPair unit low, e' :: after)
          else .ok (.ofUnit unit, e :: rest)
      | _, _ => .ok (.ofUnit unit, e :: rest)
  | _ => .error ⟨.badUnicodeEscape, 'u' :: s⟩

theorem length_of_readUnicodeEscape {s rest : List Char} {p : CodePoint}
    (h : readUnicodeEscape s = .ok (p, rest)) : rest.length < s.length := by
  unfold readUnicodeEscape at h
  split at h
  · rename_i a b c d e tail
    split at h
    · simp at h
    · split at h
      · rename_i heq
        have hl := congrArg List.length heq
        split at h
        · simp at h
        · split at h <;> obtain ⟨rfl, rfl⟩ := Prod.mk.inj (Except.ok.inj h) <;>
            simp only [List.length_cons] at hl ⊢ <;> omega
      · obtain ⟨rfl, rfl⟩ := Prod.mk.inj (Except.ok.inj h)
        simp only [List.length_cons]
        omega
  · simp at h

def escaped? : Char → Option Char
  | '"' => some '"'
  | '\\' => some '\\'
  | '/' => some '/'
  | 'b' => some '\x08'
  | 'f' => some '\x0c'
  | 'n' => some '\n'
  | 'r' => some '\r'
  | 't' => some '\t'
  | _ => none

/-- The next code point of a string that began at `start`; none at the closing quote. -/
def readCodePoint (start s : List Char) : Except SyntaxFault (Option CodePoint × List Char) :=
  match s with
  | [] => .error ⟨.openString, start⟩
  | '"' :: rest => .ok (none, rest)
  | ['\\'] => .error ⟨.openString, start⟩
  | '\\' :: 'u' :: digits => (readUnicodeEscape digits).map fun (p, rest) => (some p, rest)
  | '\\' :: c :: rest =>
    match escaped? c with
    | none => .error ⟨.badEscape, s⟩
    | some e => .ok (some (.scalar e), rest)
  | c :: rest =>
    if c.toNat < 0x20 then .error ⟨.controlCharacter, s⟩ else .ok (some (.scalar c), rest)

theorem length_of_readCodePoint {start s rest : List Char} {p : Option CodePoint}
    (h : readCodePoint start s = .ok (p, rest)) : rest.length < s.length := by
  unfold readCodePoint at h
  split at h
  · simp at h
  · obtain ⟨rfl, rfl⟩ := Prod.mk.inj (Except.ok.inj h)
    simp
  · simp at h
  · rename_i digits
    cases hu : readUnicodeEscape digits with
    | error fault => simp [hu, Except.map] at h
    | ok result =>
      have := @length_of_readUnicodeEscape digits result.2 result.1 (by rw [hu])
      simp only [hu, Except.map, Except.ok.injEq, Prod.mk.injEq] at h
      simp only [List.length_cons, ← h.2]
      omega
  · split at h
    · simp at h
    · obtain ⟨rfl, rfl⟩ := Prod.mk.inj (Except.ok.inj h)
      simp only [List.length_cons]
      omega
  · split at h
    · simp at h
    · obtain ⟨rfl, rfl⟩ := Prod.mk.inj (Except.ok.inj h)
      simp

/-- The rest of a string that began at `start`, and what follows its closing quote. -/
def readString (start s : List Char) : Except SyntaxFault (Text × List Char) :=
  match _h : readCodePoint start s with
  | .error fault => .error fault
  | .ok (none, rest) => .ok ([], rest)
  | .ok (some p, rest) => (readString start rest).map fun (t, after) => (p :: t, after)
termination_by s.length
decreasing_by exact length_of_readCodePoint _h

theorem length_of_readString {start s rest : List Char} {t : Text}
    (h : readString start s = .ok (t, rest)) : rest.length < s.length := by
  fun_induction readString start s generalizing t with
  | case1 => simp at h
  | case2 s after hp =>
    obtain ⟨rfl, rfl⟩ := Prod.mk.inj (Except.ok.inj h)
    exact length_of_readCodePoint hp
  | case3 s p after hp ih =>
    have := length_of_readCodePoint hp
    cases hr : readString start after with
    | error fault => simp [hr, Except.map] at h
    | ok result =>
      simp only [hr, Except.map, Except.ok.injEq, Prod.mk.injEq] at h
      have := ih (t := result.1) (h.2 ▸ hr)
      omega

/-! ## Numbers -/

/-- The number that a row of decimal digits denotes. -/
def ofDigits (digits : List Char) : Nat :=
  digits.foldl (fun n c => 10 * n + (c.toNat - '0'.toNat)) 0

/-- The digits before a fraction: a zero ends them, no other number begins with one. -/
def readWhole? : List Char → Option (Nat × List Char)
  | '0' :: rest => some (0, rest)
  | s =>
    if (s.takeWhile Char.isDigit).isEmpty then none
    else some (ofDigits (s.takeWhile Char.isDigit), s.dropWhile Char.isDigit)

def startsWithDigit : List Char → Bool
  | c :: _ => c.isDigit
  | [] => false

/-- What follows a period and at least one digit. -/
def afterFraction? : List Char → Option (List Char)
  | '.' :: rest => if startsWithDigit rest then some (rest.dropWhile Char.isDigit) else none
  | _ => none

def afterSign : List Char → List Char
  | '+' :: rest => rest
  | '-' :: rest => rest
  | s => s

/-- What follows an exponent with at least one digit. -/
def afterExponent? : List Char → Option (List Char)
  | c :: rest =>
    if (c == 'e' || c == 'E') && startsWithDigit (afterSign rest) then
      some ((afterSign rest).dropWhile Char.isDigit)
    else none
  | [] => none

/-- A number is an integer unless a fraction or an exponent follows its digits. -/
def readUnsigned? (sign : Int) (s : List Char) : Option (Json × List Char) := do
  let (n, rest) ← readWhole? s
  match afterFraction? rest with
  | some after => return (real, (afterExponent? after).getD after)
  | none =>
    match afterExponent? rest with
    | some after => return (real, after)
    | none => return (int (sign * n), rest)

theorem length_dropDigits (s : List Char) : (s.dropWhile Char.isDigit).length ≤ s.length :=
  (List.dropWhile_sublist _).length_le

theorem length_of_readWhole? {s rest : List Char} {n : Nat} (h : readWhole? s = some (n, rest)) :
    rest.length < s.length := by
  unfold readWhole? at h
  split at h
  · obtain ⟨rfl, rfl⟩ := Prod.mk.inj (Option.some.inj h)
    simp
  · split at h
    · simp at h
    · rename_i hne
      obtain ⟨rfl, rfl⟩ := Prod.mk.inj (Option.some.inj h)
      have hsum := congrArg List.length
        (List.takeWhile_append_dropWhile (p := Char.isDigit) (l := s))
      have hpos : 0 < (s.takeWhile Char.isDigit).length := by
        simpa [List.length_pos_iff] using hne
      rw [List.length_append] at hsum
      omega

theorem length_of_afterFraction? {s rest : List Char} (h : afterFraction? s = some rest) :
    rest.length ≤ s.length := by
  unfold afterFraction? at h
  split at h
  · split at h
    · obtain rfl := Option.some.inj h
      exact Nat.le_succ_of_le (length_dropDigits _)
    · simp at h
  · simp at h

theorem length_afterSign (s : List Char) : (afterSign s).length ≤ s.length := by
  unfold afterSign
  split <;> simp

theorem length_of_afterExponent? {s rest : List Char} (h : afterExponent? s = some rest) :
    rest.length ≤ s.length := by
  unfold afterExponent? at h
  split at h
  · split at h
    · obtain rfl := Option.some.inj h
      exact Nat.le_succ_of_le (Nat.le_trans (length_dropDigits _) (length_afterSign _))
    · simp at h
  · simp at h

theorem length_of_readUnsigned? {sign : Int} {s rest : List Char} {value : Json}
    (h : readUnsigned? sign s = some (value, rest)) : rest.length < s.length := by
  unfold readUnsigned? at h
  cases hw : readWhole? s with
  | none => simp [hw] at h
  | some whole =>
    obtain ⟨n, tail⟩ := whole
    have hlt := length_of_readWhole? hw
    simp only [hw, Option.bind_eq_bind, Option.bind_some] at h
    split at h
    · rename_i after hf
      have hle := length_of_afterFraction? hf
      obtain ⟨-, rfl⟩ := Prod.mk.inj (Option.some.inj h)
      cases he : afterExponent? after with
      | none => simpa using Nat.lt_of_le_of_lt hle hlt
      | some tail' =>
        have := length_of_afterExponent? he
        simp only [Option.getD_some]
        omega
    · split at h
      · rename_i after he
        have := length_of_afterExponent? he
        obtain ⟨-, rfl⟩ := Prod.mk.inj (Option.some.inj h)
        omega
      · obtain ⟨-, rfl⟩ := Prod.mk.inj (Option.some.inj h)
        exact hlt

/-! ## Lexemes -/

inductive Lexeme where
  | openArray
  | closeArray
  | openObject
  | closeObject
  | comma
  | colon
  | string (value : Text)
  /-- A number or one of the words for values. -/
  | atom (value : Json)
  /-- An integer of `count` digits, which are too many. -/
  | oversized (count : Nat)
  | faulty (fault : SyntaxFault)
  | other
  | finish

/-- The words that stand for a value. -/
def words : List (String × Json) :=
  [("null", null), ("true", bool true), ("false", bool false), ("NaN", real), ("Infinity", real),
    ("-Infinity", real)]

def readWord? (s : List Char) : Option (Json × List Char) :=
  words.findSome? fun word =>
    if word.1.toList.isPrefixOf s then some (word.2, s.drop word.1.toList.length) else none

def readAtom? (s : List Char) : Option (Json × List Char) :=
  match readWord? s with
  | some result => some result
  | none =>
    match s with
    | '-' :: rest => readUnsigned? (-1) rest
    | _ => readUnsigned? 1 s

/-- The lexeme of a value that is no string. Only integers may have too many digits. -/
def lexemeOf (value : Json) : Lexeme :=
  match value with
  | int n => if isOversized n then .oversized (digitCount n) else .atom value
  | _ => .atom value

/-- The lexeme at the front of a text, and what follows it. -/
def next (s : List Char) : Lexeme × List Char :=
  match s with
  | [] => (.finish, [])
  | '[' :: rest => (.openArray, rest)
  | ']' :: rest => (.closeArray, rest)
  | '{' :: rest => (.openObject, rest)
  | '}' :: rest => (.closeObject, rest)
  | ',' :: rest => (.comma, rest)
  | ':' :: rest => (.colon, rest)
  | '"' :: rest =>
    match readString s rest with
    | .error fault => (.faulty fault, rest)
    | .ok (t, after) => (.string t, after)
  | _ :: rest =>
    match readAtom? s with
    | none => (.other, rest)
    | some (value, after) => (lexemeOf value, after)

theorem length_of_readWord? {s rest : List Char} {value : Json}
    (h : readWord? s = some (value, rest)) : rest.length < s.length := by
  obtain ⟨⟨word, _⟩, hmem, h⟩ := List.exists_of_findSome?_eq_some h
  dsimp only at h
  split at h
  · rename_i hp
    obtain ⟨-, rfl⟩ := Prod.mk.inj (Option.some.inj h)
    have hle := (List.isPrefixOf_iff_prefix.mp hp).length_le
    have hpos : 0 < word.toList.length := by
      revert hmem
      simp only [words, List.mem_cons, Prod.mk.injEq, List.not_mem_nil, or_false]
      rintro (⟨rfl, -⟩ | ⟨rfl, -⟩ | ⟨rfl, -⟩ | ⟨rfl, -⟩ | ⟨rfl, -⟩ | ⟨rfl, -⟩) <;> decide
    rw [List.length_drop]
    omega
  · simp at h

theorem length_of_readAtom? {s rest : List Char} {value : Json}
    (h : readAtom? s = some (value, rest)) : rest.length < s.length := by
  unfold readAtom? at h
  split at h
  · rename_i hw
    exact length_of_readWord? (hw.trans h)
  · split at h
    · exact Nat.lt_succ_of_lt (length_of_readUnsigned? h)
    · exact length_of_readUnsigned? h

theorem length_next {s : List Char} (h : s ≠ []) : (next s).2.length < s.length := by
  unfold next
  split
  · exact absurd rfl h
  · simp
  · simp
  · simp
  · simp
  · simp
  · simp
  · split
    · simp
    · rename_i hr
      exact Nat.lt_succ_of_lt (length_of_readString hr)
  · split
    · simp
    · rename_i ha
      exact length_of_readAtom? ha

end Json
end CaseScript
