import CaseScript.Proofs.Js.StringLiteral
import CaseScript.Proofs.Text.Reading
import CaseScript.Text.Quoted
import Mathlib.Data.Nat.Digits.Defs

/-!
# Reading quoted texts

A quoted text can be read back, also where more follows it, and so can a list of quoted texts. No
control characters are written.
-/

namespace CaseScript

theorem CodePoint.value_injective {p p' : CodePoint} (h : p.value = p'.value) : p = p' := by
  have hscalar : ∀ (c : Char) (offset : Fin 0x800),
      (CodePoint.scalar c).value ≠ (CodePoint.surrogate offset).value := by
    intro c offset heq
    have hvalid := c.valid
    have hlt := offset.isLt
    unfold UInt32.isValidChar Nat.isValidChar at hvalid
    change c.val.toNat = 0xD800 + (offset : Nat) at heq
    omega
  cases p with
  | scalar c =>
    cases p' with
    | scalar c' => rw [Char.toNat_inj.mp h]
    | surrogate offset => exact absurd h (hscalar c offset)
  | surrogate offset =>
    cases p' with
    | scalar c => exact absurd h.symm (hscalar c offset)
    | surrogate offset' => rw [Fin.ext (Nat.add_left_cancel h)]

namespace Text

/-! ## Hexadecimal digits -/

def hexValue (digits : List Char) : Nat :=
  digits.foldl (fun value c => 16 * value + (hexDigit? c).getD 0) 0

theorem hexValue_toDigits (n : Nat) : hexValue (Nat.toDigits 16 n) = n := by
  induction n using Nat.strongRecOn with
  | ind n ih =>
    by_cases hn : n < 16
    · rw [Nat.toDigits_of_lt_base hn]
      simp [hexValue, hexDigit?_digitChar hn]
    · have hinit := ih (n / 16) (by omega)
      unfold hexValue at hinit ⊢
      rw [Nat.toDigits_of_base_le (by decide) (by omega), List.foldl_append, hinit,
        List.foldl_cons, List.foldl_nil, hexDigit?_digitChar (by omega), Option.getD_some]
      omega

theorem hexValue_hex (width n : Nat) : hexValue (hex width n) = n := by
  have hzeros : ∀ count : Nat, hexValue (List.replicate count '0') = 0 := by
    intro count
    induction count with
    | zero => rfl
    | succ count ih => exact ih
  have hvalue := hexValue_toDigits n
  unfold hexValue at hzeros hvalue ⊢
  rw [hex, List.foldl_append, hzeros, hvalue]

theorem length_hex {width n : Nat} (hwidth : 0 < width) (hn : n < 16 ^ width) :
    (hex width n).length = width := by
  have hlength := Nat.toDigits_length 16 n width hwidth hn
  rw [hex, List.length_append, List.length_replicate]
  omega

/-! ## Code points -/

/-- The code point at the front of quoted characters, by its value, and what follows it. -/
def readPoint : List Char → Nat × List Char
  | '\\' :: 'x' :: rest => (hexValue (rest.take 2), rest.drop 2)
  | '\\' :: 'u' :: rest => (hexValue (rest.take 4), rest.drop 4)
  | '\\' :: 'U' :: rest => (hexValue (rest.take 8), rest.drop 8)
  | '\\' :: 't' :: rest => ('\t'.toNat, rest)
  | '\\' :: 'n' :: rest => ('\n'.toNat, rest)
  | '\\' :: 'r' :: rest => ('\r'.toNat, rest)
  | '\\' :: c :: rest => (c.toNat, rest)
  | c :: rest => (c.toNat, rest)
  | [] => (0, [])

def IsQuote (c : Char) : Prop := c = '\'' ∨ c = '"'

variable {quote : Char}

theorem readPoint_hexEscape {n : Nat} (h : n < 0x110000) (rest : List Char) :
    readPoint (hexEscape n ++ rest) = (n, rest) := by
  have hread : ∀ width, 0 < width → n < 16 ^ width →
      (hexValue ((hex width n ++ rest).take width), (hex width n ++ rest).drop width) =
        (n, rest) := by
    intro width hwidth hn
    rw [List.take_left' (length_hex hwidth hn), List.drop_left' (length_hex hwidth hn),
      hexValue_hex]
  unfold hexEscape
  split
  · exact hread 2 (by decide) (by omega)
  · split
    · exact hread 4 (by decide) (by omega)
    · exact hread 8 (by decide) (by omega)

theorem readPoint_plain {c : Char} (h : c ≠ '\\') (rest : List Char) :
    readPoint (c :: rest) = (c.toNat, rest) := by
  unfold readPoint
  split <;> simp_all

theorem readPoint_quotedCodePoint (hquote : IsQuote quote) (p : CodePoint) (rest : List Char) :
    readPoint (quotedCodePoint quote p ++ rest) = (p.value, rest) := by
  cases p with
  | surrogate offset => exact readPoint_hexEscape (CodePoint.value_lt _) rest
  | scalar c =>
    by_cases hself : c = quote ∨ c = '\\'
    · rw [quotedCodePoint, if_pos hself]
      rcases hself with rfl | rfl
      · rcases hquote with rfl | rfl <;> rfl
      · rfl
    rw [quotedCodePoint, if_neg hself]
    split
    · subst c
      rfl
    split
    · subst c
      rfl
    split
    · subst c
      rfl
    split
    · exact readPoint_plain (fun h => hself (.inr h)) rest
    · exact readPoint_hexEscape (CodePoint.scalar c).value_lt rest

/-- No code point looks like the end of the quotation. -/
theorem quotedCodePoint_append_ne (hquote : IsQuote quote) (p : CodePoint)
    (rest after : List Char) : quotedCodePoint quote p ++ rest ≠ quote :: after := by
  have hbackslash : '\\' ≠ quote := by rcases hquote with rfl | rfl <;> decide
  have hhex : ∀ n, hexEscape n ++ rest ≠ quote :: after := by
    intro n h
    unfold hexEscape at h
    split at h
    · exact hbackslash (List.cons.inj h).1
    · split at h <;> exact hbackslash (List.cons.inj h).1
  intro h
  cases p with
  | surrogate offset => exact hhex _ h
  | scalar c =>
    rw [quotedCodePoint] at h
    split at h
    · exact hbackslash (List.cons.inj h).1
    rename_i hself
    split at h
    · exact hbackslash (List.cons.inj h).1
    split at h
    · exact hbackslash (List.cons.inj h).1
    split at h
    · exact hbackslash (List.cons.inj h).1
    split at h
    · exact hself (.inl (List.cons.inj h).1)
    · exact hhex _ h

/-! ## Texts -/

/-- A quotation has only one reading, whatever follows it. -/
theorem quotedPoints_inj (hquote : IsQuote quote) {t t' : Text} {rest rest' : List Char}
    (h : t.flatMap (quotedCodePoint quote) ++ quote :: rest =
      t'.flatMap (quotedCodePoint quote) ++ quote :: rest') : t = t' ∧ rest = rest' := by
  induction t generalizing t' with
  | nil =>
    cases t' with
    | nil => exact ⟨rfl, (List.cons.inj h).2⟩
    | cons p' t' =>
      rw [List.flatMap_cons, List.append_assoc] at h
      exact absurd h.symm (quotedCodePoint_append_ne hquote p' _ _)
  | cons p t ih =>
    cases t' with
    | nil =>
      rw [List.flatMap_cons, List.append_assoc] at h
      exact absurd h (quotedCodePoint_append_ne hquote p _ _)
    | cons p' t' =>
      rw [List.flatMap_cons, List.flatMap_cons, List.append_assoc, List.append_assoc] at h
      have hread := congrArg readPoint h
      rw [readPoint_quotedCodePoint hquote, readPoint_quotedCodePoint hquote] at hread
      obtain ⟨hvalue, hrest⟩ := Prod.mk.inj hread
      obtain ⟨rfl, hafter⟩ := ih hrest
      rw [CodePoint.value_injective hvalue]
      exact ⟨rfl, hafter⟩

theorem isQuote_quoteChar (t : Text) : IsQuote (quoteChar t) := by
  unfold quoteChar
  split
  · exact .inr rfl
  · exact .inl rfl

theorem toList_quoted (t : Text) :
    (quoted t).toList =
      quoteChar t :: (t.flatMap (quotedCodePoint (quoteChar t)) ++ [quoteChar t]) :=
  String.toList_ofList

theorem quoted_append_inj {t t' : Text} {rest rest' : List Char}
    (h : (quoted t).toList ++ rest = (quoted t').toList ++ rest') : t = t' ∧ rest = rest' := by
  rw [toList_quoted, toList_quoted, List.cons_append, List.cons_append, List.append_assoc,
    List.append_assoc] at h
  obtain ⟨hquote, hpoints⟩ := List.cons.inj h
  rw [← hquote] at hpoints
  exact quotedPoints_inj (isQuote_quoteChar t) hpoints

theorem quoted_injective {t t' : Text} (h : quoted t = quoted t') : t = t' :=
  (quoted_append_inj (congrArg (String.toList · ++ []) h)).1

/-! ## Lists of texts -/

/-- What follows the first text of a list. -/
def furtherQuoted (ts : List Text) : List Char :=
  ts.flatMap (fun t => ", ".toList ++ (quoted t).toList) ++ [']']

theorem toList_quotedList_cons (t : Text) (ts : List Text) :
    (quotedList (t :: ts)).toList = '[' :: ((quoted t).toList ++ furtherQuoted ts) := by
  have hitems : ∀ (t : Text) (ts : List Text),
      (", ".intercalate ((t :: ts).map quoted)).toList ++ [']'] =
        (quoted t).toList ++ furtherQuoted ts := by
    intro t ts
    induction ts generalizing t with
    | nil => simp [furtherQuoted]
    | cons next ts ih =>
      rw [List.map_cons, List.map_cons, String.intercalate_cons_cons, ← List.map_cons,
        String.toList_append, String.toList_append, List.append_assoc, ih]
      simp [furtherQuoted]
  have hopen : "[".toList = ['['] := rfl
  have hclose : "]".toList = [']'] := rfl
  rw [quotedList, String.toList_append, String.toList_append, hopen, hclose, List.append_assoc,
    hitems, List.singleton_append]

theorem furtherQuoted_inj {ts ts' : List Text} (h : furtherQuoted ts = furtherQuoted ts') :
    ts = ts' := by
  induction ts generalizing ts' with
  | nil =>
    cases ts' with
    | nil => rfl
    | cons t' ts' => cases h
  | cons t ts ih =>
    cases ts' with
    | nil => cases h
    | cons t' ts' =>
      unfold furtherQuoted at h ih
      simp only [List.flatMap_cons, List.append_assoc] at h
      obtain ⟨rfl, hrest⟩ := quoted_append_inj (List.append_cancel_left h)
      rw [ih hrest]

theorem quotedList_injective {ts ts' : List Text} (h : quotedList ts = quotedList ts') :
    ts = ts' := by
  have hempty : (quotedList []).toList = ['[', ']'] := rfl
  have hne : ∀ (t : Text) (ts : List Text), quotedList (t :: ts) ≠ quotedList [] := by
    intro t ts h
    have hlist := congrArg String.toList h
    rw [toList_quotedList_cons, hempty, toList_quoted] at hlist
    have hquote := (List.cons.inj (List.cons.inj hlist).2).1
    rcases isQuote_quoteChar t with h | h <;> rw [h] at hquote <;> cases hquote
  cases ts with
  | nil =>
    cases ts' with
    | nil => rfl
    | cons t' ts' => exact absurd h.symm (hne t' ts')
  | cons t ts =>
    cases ts' with
    | nil => exact absurd h (hne t ts)
    | cons t' ts' =>
      have hlist := congrArg String.toList h
      rw [toList_quotedList_cons, toList_quotedList_cons] at hlist
      obtain ⟨rfl, hrest⟩ := quoted_append_inj (List.cons.inj hlist).2
      rw [furtherQuoted_inj hrest]

/-! ## Control characters -/

/-- Is a text free of control characters such as line ends and escapes? -/
def IsControlFree (s : String) : Prop := ∀ c ∈ s.toList, ' ' ≤ c

theorem isControlFree_iff {s : String} : IsControlFree s ↔ s.toList.all (' ' ≤ ·) = true := by
  simp [IsControlFree]

theorem IsControlFree.append {s s' : String} (h : IsControlFree s) (h' : IsControlFree s') :
    IsControlFree (s ++ s') := by
  unfold IsControlFree
  rw [String.toList_append, List.forall_mem_append]
  exact ⟨h, h'⟩

theorem IsControlFree.notMem {s : String} (h : IsControlFree s) {c : Char} (hc : c < ' ') :
    c ∉ s.toList := fun hmem => Char.not_lt.mpr (h c hmem) hc

theorem space_le_toDigits {base : Nat} (hbase : 1 < base ∧ base ≤ 16) (n : Nat) :
    ∀ c ∈ Nat.toDigits base n, ' ' ≤ c := by
  have hdigits : ∀ d : Fin 16, ' ' ≤ Nat.digitChar d := by decide
  have hdigit : ∀ d, d < base → ' ' ≤ Nat.digitChar d := fun d hd => hdigits ⟨d, by omega⟩
  induction n using Nat.strongRecOn with
  | ind n ih =>
    by_cases hn : n < base
    · rw [Nat.toDigits_of_lt_base hn, List.forall_mem_singleton]
      exact hdigit n hn
    · rw [Nat.toDigits_of_base_le hbase.1 (by omega), List.forall_mem_append,
        List.forall_mem_singleton]
      exact ⟨ih _ (Nat.div_lt_self (by omega) hbase.1), hdigit _ (Nat.mod_lt _ (by omega))⟩

theorem isControlFree_toString (n : Int) : IsControlFree (toString n) := by
  have hnat : ∀ n : Nat, IsControlFree (toString n) := by
    intro n
    rw [IsControlFree, Nat.toString_eq_ofList_toDigits, String.toList_ofList]
    exact space_le_toDigits (by decide) n
  rw [toString_signed]
  split
  · exact hnat _
  · exact IsControlFree.append (isControlFree_iff.mpr (by decide)) (hnat _)

theorem space_le_hexEscape (n : Nat) : ∀ c ∈ hexEscape n, ' ' ≤ c := by
  have hhex : ∀ width, ∀ c ∈ hex width n, ' ' ≤ c := by
    intro width c hc
    rcases List.mem_append.mp hc with hzero | hdigit
    · rw [List.eq_of_mem_replicate hzero]
      decide
    · exact space_le_toDigits (by decide) n c hdigit
  unfold hexEscape
  split
  · simp only [List.forall_mem_cons]
    exact ⟨by decide, by decide, hhex 2⟩
  split
  · simp only [List.forall_mem_cons]
    exact ⟨by decide, by decide, hhex 4⟩
  · simp only [List.forall_mem_cons]
    exact ⟨by decide, by decide, hhex 8⟩

theorem space_le_of_isPrintable {c : Char} (h : isPrintable c = true) : ' ' ≤ c := by
  rw [isPrintable, Bool.or_eq_true, Range.contains_iff] at h
  rcases h with hascii | hother
  · exact hascii.1
  · by_contra hlt
    have hrange : (Range.mk 0x0 0x1F).contains c.toNat = true := by
      have hcontrol : c.toNat < 0x20 := Char.not_le.mp hlt
      exact (Range.contains_iff _ _).mpr ⟨Nat.zero_le _, Nat.le_of_lt_succ hcontrol⟩
    have hany : unprintableRanges.any (·.contains c.toNat) = true :=
      List.any_eq_true.mpr ⟨_, List.mem_cons_self, hrange⟩
    rw [hany] at hother
    cases hother

theorem space_le_quotedCodePoint (hquote : IsQuote quote) (p : CodePoint) :
    ∀ c ∈ quotedCodePoint quote p, ' ' ≤ c := by
  have hescape : ∀ letter, ' ' ≤ letter → ∀ c ∈ ['\\', letter], ' ' ≤ c := by
    intro letter hletter
    exact List.forall_mem_cons.mpr ⟨by decide, List.forall_mem_singleton.mpr hletter⟩
  cases p with
  | surrogate offset => exact space_le_hexEscape _
  | scalar c =>
    rw [quotedCodePoint]
    split
    · rename_i hself
      apply hescape
      rcases hself with rfl | rfl
      · rcases hquote with rfl | rfl <;> decide
      · decide
    split
    · exact hescape 't' (by decide)
    split
    · exact hescape 'n' (by decide)
    split
    · exact hescape 'r' (by decide)
    split
    · rename_i hprintable
      exact List.forall_mem_singleton.mpr (space_le_of_isPrintable hprintable)
    · exact space_le_hexEscape _

theorem isControlFree_quoted (t : Text) : IsControlFree (quoted t) := by
  have hquote := isQuote_quoteChar t
  have hcontrol : ' ' ≤ quoteChar t := by rcases hquote with h | h <;> rw [h] <;> decide
  rw [IsControlFree, toList_quoted, List.forall_mem_cons, List.forall_mem_append,
    List.forall_mem_singleton]
  refine ⟨hcontrol, ?_, hcontrol⟩
  intro c hc
  obtain ⟨p, -, hc⟩ := List.mem_flatMap.mp hc
  exact space_le_quotedCodePoint hquote p c hc

theorem isControlFree_quotedList (ts : List Text) : IsControlFree (quotedList ts) := by
  cases ts with
  | nil => exact isControlFree_iff.mpr (by decide)
  | cons t ts =>
    rw [IsControlFree, toList_quotedList_cons, List.forall_mem_cons, List.forall_mem_append,
      furtherQuoted, List.forall_mem_append, List.forall_mem_singleton]
    have hseparator : IsControlFree ", " := isControlFree_iff.mpr (by decide)
    refine ⟨by decide, isControlFree_quoted t, ?_, by decide⟩
    intro c hc
    obtain ⟨other, -, hc⟩ := List.mem_flatMap.mp hc
    rcases List.mem_append.mp hc with hc | hc
    · exact hseparator c hc
    · exact isControlFree_quoted other c hc

end Text
end CaseScript
