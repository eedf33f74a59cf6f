import CaseScript.Json.Reader
import CaseScript.Proofs.Assoc
import Mathlib.Algebra.Group.Nat.Defs

/-!
# Numerals that are not read

A text is refused for the length of a numeral only if it has one with too many digits, and no value
that is read from a text holds such a number.
-/

namespace CaseScript

theorem digitCount_le_iff {n : Int} {most : Nat} (h : 0 < most) :
    digitCount n ≤ most ↔ n.natAbs < 10 ^ most :=
  Nat.length_toDigits_le_iff (by decide) h

theorem isOversized_iff {n : Int} : isOversized n = true ↔ mostDigits < digitCount n :=
  decide_eq_true_iff

theorem exists_isOversized : ∃ n, isOversized n = true := by
  have hcount : ∀ most, 0 < most → most < digitCount (10 ^ most) := by
    intro most hmost
    rw [← Nat.not_le, digitCount_le_iff hmost, Int.natAbs_pow]
    exact Nat.lt_irrefl _
  exact ⟨_, isOversized_iff.mpr (hcount mostDigits (by decide))⟩

namespace Json

/-! ## Digits -/

theorem foldl_digits_lt {digits : List Char} (hdigits : ∀ c ∈ digits, c.isDigit = true)
    {n before : Nat} (hn : n < 10 ^ before) :
    digits.foldl (fun n c => 10 * n + (c.toNat - '0'.toNat)) n <
      10 ^ (before + digits.length) := by
  induction digits generalizing n before with
  | nil => exact hn
  | cons c rest ih =>
    rw [List.forall_mem_cons] at hdigits
    have hdigit : 48 ≤ c.toNat ∧ c.toNat ≤ 57 := Char.isDigit_iff_toNat.mp hdigits.1
    have hzero : '0'.toNat = 48 := rfl
    have hnext : 10 * n + (c.toNat - '0'.toNat) < 10 ^ (before + 1) := by
      rw [Nat.pow_succ, hzero]
      omega
    have hlength : before + (c :: rest).length = before + 1 + rest.length := by
      rw [List.length_cons, Nat.add_assoc, Nat.add_comm 1]
    rw [List.foldl_cons, hlength]
    exact ih hdigits.2 hnext

/-- A row of digits writes a number with at most as many digits. -/
theorem digitCount_ofDigits_le {digits : List Char} (hne : digits ≠ [])
    (hdigits : ∀ c ∈ digits, c.isDigit = true) : digitCount (ofDigits digits) ≤ digits.length := by
  rw [digitCount_le_iff (List.length_pos_iff.mpr hne), Int.natAbs_natCast]
  have hlt : ofDigits digits < 10 ^ (0 + digits.length) := foldl_digits_lt hdigits Nat.zero_lt_one
  rwa [Nat.zero_add] at hlt

theorem digitCount_of_readWhole? {s rest : List Char} {n : Nat}
    (h : readWhole? s = some (n, rest)) : digitCount n ≤ s.length := by
  unfold readWhole? at h
  split at h
  · obtain ⟨rfl, -⟩ := Prod.mk.inj (Option.some.inj h)
    have hzero : digitCount (0 : Nat) = 1 := by decide
    rw [hzero, List.length_cons]
    omega
  · split at h
    · cases h
    · rename_i hne
      obtain ⟨rfl, -⟩ := Prod.mk.inj (Option.some.inj h)
      have hdigits : ∀ c ∈ s.takeWhile Char.isDigit, c.isDigit = true :=
        List.all_eq_true.mp List.all_takeWhile
      have hle := digitCount_ofDigits_le (List.isEmpty_eq_false_iff.mp (Bool.eq_false_iff.mpr hne))
        hdigits
      exact Nat.le_trans hle (List.takeWhile_sublist _).length_le

theorem digitCount_of_readUnsigned? {sign : Int} {s rest : List Char} {m : Int}
    (hsign : sign.natAbs = 1) (h : readUnsigned? sign s = some (int m, rest)) :
    digitCount m ≤ s.length := by
  unfold readUnsigned? at h
  cases hwhole : readWhole? s with
  | none => simp [hwhole] at h
  | some whole =>
    obtain ⟨n, tail⟩ := whole
    simp only [hwhole, Option.bind_eq_bind, Option.bind_some] at h
    split at h
    · cases h
    · split at h
      · cases h
      · cases h
        have habs : (sign * n).natAbs = (n : Int).natAbs := by
          rw [Int.natAbs_mul, hsign, Nat.one_mul]
        have hcount : digitCount (sign * n) = digitCount n := by rw [digitCount, digitCount, habs]
        rw [hcount]
        exact digitCount_of_readWhole? hwhole

theorem readWord?_ne_int {s rest : List Char} {m : Int} : readWord? s ≠ some (int m, rest) := by
  intro h
  obtain ⟨⟨word, value⟩, hmem, h⟩ := List.exists_of_findSome?_eq_some h
  have hword : ∀ word ∈ words, word.2.int? = none := by decide
  split at h
  · cases h
    cases hword _ hmem
  · cases h

theorem digitCount_of_readAtom? {s rest : List Char} {m : Int}
    (h : readAtom? s = some (int m, rest)) : digitCount m ≤ s.length := by
  unfold readAtom? at h
  split at h
  · rename_i hword
    exact absurd (hword.trans h) readWord?_ne_int
  · split at h
    · exact Nat.le_succ_of_le (digitCount_of_readUnsigned? rfl h)
    · exact digitCount_of_readUnsigned? rfl h

/-! ## Lexemes -/

/-- Is there room in a text for a numeral of so many digits, which are too many? -/
def HasRoomFor (count : Nat) (s : List Char) : Prop := mostDigits < count ∧ count ≤ s.length

theorem HasRoomFor.of_dropWhile {s after : List Char} {count : Nat} {p : Char → Bool}
    (h : HasRoomFor count after) (hs : s.dropWhile p = after) : HasRoomFor count s := by
  have hle := (List.dropWhile_sublist p : (s.dropWhile p).Sublist s).length_le
  rw [hs] at hle
  exact ⟨h.1, Nat.le_trans h.2 hle⟩

theorem lexemeOf_eq_oversized {value : Json} {count : Nat} :
    lexemeOf value = .oversized count ↔
      ∃ n, value = int n ∧ isOversized n = true ∧ count = digitCount n := by
  cases value with
  | int n =>
    dsimp only [lexemeOf]
    constructor
    · intro h
      split at h
      · rename_i hover
        cases h
        exact ⟨n, rfl, hover, rfl⟩
      · cases h
    · rintro ⟨_, ⟨⟩, hover, rfl⟩
      exact if_pos hover
  | _ => simp [lexemeOf]

theorem hasRoomFor_of_next {s : List Char} {count : Nat}
    (h : (next s).1 = .oversized count) : HasRoomFor count s := by
  unfold next at h
  split at h
  iterate 7 cases h
  · split at h <;> cases h
  · split at h
    · cases h
    · rename_i value after hatom
      obtain ⟨n, rfl, hover, rfl⟩ := lexemeOf_eq_oversized.mp h
      exact ⟨isOversized_iff.mp hover, digitCount_of_readAtom? hatom⟩

/-! ## Texts -/

namespace Reader

/-- Only where a value is due, a step ends at a numeral with too many digits. -/
theorem eq_of_step {reader : Reader} {s : List Char} {lexeme : Lexeme} {count : Nat}
    (h : reader.step s lexeme = .error (.oversized count)) : lexeme = .oversized count := by
  unfold step at h
  split at h
  · split at h
    · cases h
    · cases h
      rfl
    · cases h
    · cases h
    · cases h
    · split at h <;> cases h
    · cases h
    · cases h
  · split at h
    · cases h
    · split at h <;> cases h
    · cases h
    · cases h
  · split at h <;> cases h
  · cases h
  · split at h <;> cases h
  · split at h <;> cases h

theorem finish_ne_oversized {reader : Reader} {count : Nat} :
    reader.finish ≠ .error (.oversized count) := by
  intro h
  unfold finish at h
  split at h
  · cases h
  · split at h
    · rename_i hstep
      cases h
      cases eq_of_step hstep
    · cases h

theorem hasRoomFor_of_run {reader : Reader} {s : List Char} {count : Nat}
    (h : reader.run s = .error (.oversized count)) : HasRoomFor count s := by
  fun_induction run reader s with
  | case1 reader s hend => exact absurd h finish_ne_oversized
  | case2 reader s c rest hs fault hstep =>
    cases h
    exact (hasRoomFor_of_next (eq_of_step hstep)).of_dropWhile hs
  | case3 reader s c rest hs next hstep ih =>
    have hlt := length_next (List.cons_ne_nil c rest)
    have hrest : HasRoomFor count (c :: rest) :=
      ⟨(ih h).1, Nat.le_trans (ih h).2 (Nat.le_of_lt hlt)⟩
    exact hrest.of_dropWhile hs

end Reader

/-- A text that is refused for a numeral of so many digits is at least as long. -/
theorem hasRoomFor_of_parse {text : String} {count : Nat}
    (h : parse text = .error (.oversized count)) : HasRoomFor count text.toList := by
  unfold parse at h
  split at h
  · cases h
  · exact Reader.hasRoomFor_of_run h

/-! ## Values that are read -/

/-- Has no integer in a value too many digits? -/
inductive Bounded : Json → Prop
  | null : Bounded null
  | bool (value : Bool) : Bounded (bool value)
  | int {n : Int} (h : isOversized n = false) : Bounded (int n)
  | real : Bounded real
  | string (value : Text) : Bounded (string value)
  | array {items : List Json} (h : ∀ item ∈ items, item.Bounded) : Bounded (array items)
  | object {fields : List (Text × Json)} (h : ∀ field ∈ fields, field.2.Bounded) :
    Bounded (object fields)

def Lexeme.Bounded : Lexeme → Prop
  | atom value => value.Bounded
  | _ => True

def Frame.Bounded : Frame → Prop
  | array items => ∀ item ∈ items, item.Bounded
  | object fields _ => ∀ field ∈ fields, field.2.Bounded

def Place.Bounded : Place → Prop
  | value _ => True
  | name fields _ | colon fields _ => ∀ field ∈ fields, field.2.Bounded
  | after last => last.Bounded

/-- Has no integer too many digits that a reader holds? -/
structure Reader.Bounded (reader : Reader) : Prop where
  frames : ∀ frame ∈ reader.frames, frame.Bounded
  place : reader.place.Bounded

/-- Is this neither an array nor an object? -/
def IsScalar (value : Json) : Prop := value.kind ≠ .array ∧ value.kind ≠ .object

theorem isScalar_of_readUnsigned? {sign : Int} {s rest : List Char} {value : Json}
    (h : readUnsigned? sign s = some (value, rest)) : value.IsScalar := by
  unfold readUnsigned? at h
  cases hwhole : readWhole? s with
  | none => simp [hwhole] at h
  | some whole =>
    simp only [hwhole, Option.bind_eq_bind, Option.bind_some] at h
    split at h
    · cases h
      exact ⟨nofun, nofun⟩
    · split at h
      · cases h
        exact ⟨nofun, nofun⟩
      · cases h
        exact ⟨nofun, nofun⟩

theorem isScalar_of_readAtom? {s rest : List Char} {value : Json}
    (h : readAtom? s = some (value, rest)) : value.IsScalar := by
  unfold readAtom? at h
  split at h
  · rename_i hword
    obtain ⟨⟨word, meaning⟩, hmem, hfound⟩ := List.exists_of_findSome?_eq_some (hword.trans h)
    have hwords : ∀ word ∈ words, word.2.kind ≠ .array ∧ word.2.kind ≠ .object := by decide
    split at hfound
    · cases hfound
      exact hwords _ hmem
    · cases hfound
  · split at h
    · exact isScalar_of_readUnsigned? h
    · exact isScalar_of_readUnsigned? h

theorem bounded_lexemeOf {value : Json} (h : value.IsScalar) : (lexemeOf value).Bounded := by
  cases value with
  | int n =>
    dsimp only [lexemeOf]
    cases hover : isOversized n with
    | true => trivial
    | false => exact .int hover
  | null => exact .null
  | bool value => exact .bool value
  | real => exact .real
  | string value => exact .string value
  | array items => exact absurd rfl h.1
  | object fields => exact absurd rfl h.2

theorem bounded_next (s : List Char) : (next s).1.Bounded := by
  unfold next
  split
  iterate 7 trivial
  · split <;> trivial
  · split
    · trivial
    · rename_i hatom
      exact bounded_lexemeOf (isScalar_of_readAtom? hatom)

namespace Reader

theorem bounded_insert {name : Text} {value : Json} {fields : List (Text × Json)}
    (hvalue : value.Bounded) (hfields : ∀ field ∈ fields, field.2.Bounded) :
    ∀ field ∈ Assoc.insert name value fields, field.2.Bounded := by
  intro field hfield
  rcases Assoc.mem_insert hfield with rfl | hold
  · exact hvalue
  · exact hfields field hold

theorem bounded_of_step {reader after : Reader} {s : List Char} {lexeme : Lexeme}
    (hreader : reader.Bounded) (hlexeme : lexeme.Bounded) (h : reader.step s lexeme = .ok after) :
    after.Bounded := by
  obtain ⟨hframes, hplace⟩ := hreader
  unfold step at h
  split at h
  · split at h
    · cases h
      exact ⟨hframes, hlexeme⟩
    · cases h
    · cases h
      exact ⟨hframes, .string _⟩
    · cases h
      exact ⟨List.forall_mem_cons.mpr ⟨List.forall_mem_nil _, hframes⟩, trivial⟩
    · cases h
      exact ⟨hframes, List.forall_mem_nil _⟩
    · split at h
      · cases h
        obtain ⟨hitems, houter⟩ := List.forall_mem_cons.mp hframes
        exact ⟨houter, .array fun item hitem => hitems item (List.mem_reverse.mp hitem)⟩
      · cases h
    · cases h
    · cases h
  · split at h
    · cases h
      exact ⟨hframes, hplace⟩
    · split at h
      · cases h
        exact ⟨hframes, .object hplace⟩
      · cases h
    · cases h
    · cases h
  · split at h
    · cases h
      exact ⟨List.forall_mem_cons.mpr ⟨hplace, hframes⟩, trivial⟩
    · cases h
  · cases h
  · rename_i items outer value
    obtain ⟨hitems, houter⟩ := List.forall_mem_cons.mp hframes
    have hall : ∀ item ∈ value :: items, item.Bounded := List.forall_mem_cons.mpr ⟨hplace, hitems⟩
    split at h
    · cases h
      exact ⟨List.forall_mem_cons.mpr ⟨hall, houter⟩, trivial⟩
    · cases h
      exact ⟨houter, .array fun item hitem => hall item (List.mem_reverse.mp hitem)⟩
    · cases h
  · obtain ⟨hfields, houter⟩ := List.forall_mem_cons.mp hframes
    split at h
    · cases h
      exact ⟨houter, bounded_insert hplace hfields⟩
    · cases h
      exact ⟨houter, .object (bounded_insert hplace hfields)⟩
    · cases h

theorem bounded_of_finish {reader : Reader} {value : Json} (hreader : reader.Bounded)
    (h : reader.finish = .ok value) : value.Bounded := by
  unfold finish at h
  split at h
  · cases h
    exact hreader.place
  · split at h <;> cases h

theorem bounded_of_run {reader : Reader} {s : List Char} {value : Json} (hreader : reader.Bounded)
    (h : reader.run s = .ok value) : value.Bounded := by
  fun_induction run reader s with
  | case1 reader s hend => exact bounded_of_finish hreader h
  | case2 reader s c rest hs fault hstep => cases h
  | case3 reader s c rest hs next hstep ih =>
    exact ih (bounded_of_step hreader (bounded_next (c :: rest)) hstep) h

end Reader

/-- No integer that is read from a text has too many digits. -/
theorem bounded_of_parse {text : String} {value : Json} (h : parse text = .ok value) :
    value.Bounded := by
  unfold parse at h
  split at h
  · cases h
  · have hstart : Reader.Bounded ⟨[], .value false⟩ := ⟨List.forall_mem_nil _, trivial⟩
    exact Reader.bounded_of_run hstart h

end Json
end CaseScript
