import CaseScript.Proofs.Js.StringLiteral
import CaseScript.Proofs.Text.Reading
import Mathlib.Data.List.DropRight

/-!
# String literals of scripts

The literal for a text is printable ASCII between two quotes. Every quote inside has a backslash of
its own, so a reader of the script finds the end of the literal where it was written, and reads the
code units of the text.
-/

namespace CaseScript

namespace Text

/-- Is a character one of those from the space to the tilde? -/
def IsPrintableAscii (c : Char) : Prop := 0x20 ≤ c.toNat ∧ c.toNat < 0x7F

instance (c : Char) : Decidable (IsPrintableAscii c) := inferInstanceAs (Decidable (_ ∧ _))

end Text

namespace Js

variable {s t : List Char}

/-- The code units of the literal that a text begins with, and what follows the literal. -/
def stringUnits? : List Char → Option (List Nat × List Char)
  | '"' :: s => literalUnits? s
  | _ => none

def backslashesAtEnd (s : List Char) : Nat := (s.rtakeWhile (· = '\\')).length

/-- Does a text escape what comes next? Two backslashes escape nothing but each other. -/
def EscapesNext (s : List Char) : Prop := backslashesAtEnd s % 2 = 1

instance (s : List Char) : Decidable (EscapesNext s) := inferInstanceAs (Decidable (_ = _))

/-- Are all quotes of a text escaped? -/
def QuotesEscaped (s : List Char) : Prop :=
  ∀ before after, s = before ++ '"' :: after → EscapesNext before

/-- A text between quotes that no quote inside ends, and which does not escape the last quote. -/
structure IsQuotable (s : List Char) : Prop where
  escaped : QuotesEscaped s
  closed : ¬ EscapesNext s

theorem backslashesAtEnd_snoc (s : List Char) (c : Char) :
    backslashesAtEnd (s ++ [c]) = if c = '\\' then backslashesAtEnd s + 1 else 0 := by
  unfold backslashesAtEnd
  rw [List.rtakeWhile_concat]
  split <;> simp_all

theorem isQuotable_nil : IsQuotable [] := by
  refine ⟨fun before after h => ?_, by decide⟩
  cases before <;> cases h

theorem QuotesEscaped.snoc {c : Char} (h : QuotesEscaped s) (hc : c = '"' → EscapesNext s) :
    QuotesEscaped (s ++ [c]) := by
  intro before after heq
  rcases Text.cut_snoc heq with ⟨front, hs⟩ | ⟨rfl, rfl⟩
  · exact h before front hs
  · exact hc rfl

theorem IsQuotable.snoc {c : Char} (h : IsQuotable s) (hc : c ≠ '"' ∧ c ≠ '\\') :
    IsQuotable (s ++ [c]) where
  escaped := h.escaped.snoc fun hquote => absurd hquote hc.1
  closed := by simp [EscapesNext, backslashesAtEnd_snoc, hc.2]

theorem IsQuotable.append (h : IsQuotable s) (ht : ∀ c ∈ t, c ≠ '"' ∧ c ≠ '\\') :
    IsQuotable (s ++ t) := by
  induction t generalizing s with
  | nil =>
    rw [List.append_nil]
    exact h
  | cons c rest ih =>
    rw [List.forall_mem_cons] at ht
    rw [List.append_cons]
    exact ih (h.snoc ht.1) ht.2

/-- A backslash escapes one character, whatever this is. -/
theorem IsQuotable.escape (h : IsQuotable s) (c : Char) : IsQuotable (s ++ ['\\', c]) := by
  have heven : backslashesAtEnd s % 2 = 0 := by
    have hclosed := h.closed
    unfold EscapesNext at hclosed
    omega
  have hescapes : EscapesNext (s ++ ['\\']) := by
    rw [EscapesNext, backslashesAtEnd_snoc, if_pos rfl]
    omega
  have hescaped : QuotesEscaped (s ++ ['\\']) := h.escaped.snoc fun hc => absurd hc (by decide)
  rw [List.append_cons]
  refine ⟨hescaped.snoc fun _ => hescapes, ?_⟩
  rw [EscapesNext, backslashesAtEnd_snoc, backslashesAtEnd_snoc, if_pos rfl]
  split <;> omega

end Js

namespace Script

open Text Js

/-- The characters of an escape behind the backslash. -/
theorem hexadecimal_of_mem {n : Nat} (h : n < 0x10000) :
    ∀ c ∈ hex 4 n, IsPrintableAscii c ∧ c ≠ '"' ∧ c ≠ '\\' := by
  have hdigit : ∀ d : Fin 16, IsPrintableAscii (Nat.digitChar d) ∧ Nat.digitChar d ≠ '"' ∧
      Nat.digitChar d ≠ '\\' := by
    decide +kernel
  rw [hex_four h]
  simp only [List.forall_mem_cons]
  exact ⟨hdigit ⟨n / 0x1000, by omega⟩, hdigit ⟨n / 0x100 % 0x10, by omega⟩,
    hdigit ⟨n / 0x10 % 0x10, by omega⟩, hdigit ⟨n % 0x10, by omega⟩, List.forall_mem_nil _⟩

theorem printable_unitEscapes {units : List Nat} (h : ∀ n ∈ units, n < 0x10000) :
    ∀ c ∈ units.flatMap unitEscape, IsPrintableAscii c := by
  intro c hc
  obtain ⟨n, hn, hc⟩ := List.mem_flatMap.mp hc
  simp only [unitEscape, List.mem_cons] at hc
  rcases hc with rfl | rfl | hc
  · decide
  · decide
  · exact (hexadecimal_of_mem (h n hn) c hc).1

theorem quotable_unitEscapes {units : List Nat} (h : ∀ n ∈ units, n < 0x10000) {s : List Char}
    (hs : IsQuotable s) : IsQuotable (s ++ units.flatMap unitEscape) := by
  induction units generalizing s with
  | nil => simpa using hs
  | cons n rest ih =>
    rw [List.forall_mem_cons] at h
    have hunit : IsQuotable (s ++ unitEscape n) := by
      have hletter := (hs.escape 'u').append fun c hc => (hexadecimal_of_mem h.1 c hc).2
      simpa [unitEscape] using hletter
    rw [List.flatMap_cons, ← List.append_assoc]
    exact ih h.2 hunit

theorem printable_literalPoint (p : CodePoint) : ∀ c ∈ literalPoint p, IsPrintableAscii c := by
  unfold literalPoint
  split
  · rename_i letter hletter
    have hprintable : IsPrintableAscii letter := by
      unfold shortEscape? at hletter
      split at hletter <;> cases hletter <;> decide
    simp only [List.forall_mem_cons]
    exact ⟨by decide, hprintable, List.forall_mem_nil _⟩
  · split
    · rename_i hplain
      cases p with
      | scalar c => simpa [IsPrintableAscii] using hplain
      | surrogate offset =>
        rw [CodePoint.value] at hplain
        omega
    · exact printable_unitEscapes fun n => CodePoint.unit_lt

/-- One more code point is written so that it ends nothing and escapes nothing behind it. -/
theorem quotable_literalPoint (p : CodePoint) {s : List Char} (hs : IsQuotable s) :
    IsQuotable (s ++ literalPoint p) := by
  unfold literalPoint
  split
  · exact hs.escape _
  · rename_i hnone
    split
    · have hplain := shortEscape?_eq_none hnone
      exact hs.snoc ⟨hplain.1, hplain.2.1⟩
    · exact quotable_unitEscapes (fun n => CodePoint.unit_lt) hs

theorem quotable_literalPoints (t : Text) {s : List Char} (hs : IsQuotable s) :
    IsQuotable (s ++ t.flatMap literalPoint) := by
  induction t generalizing s with
  | nil => simpa using hs
  | cons p rest ih =>
    rw [List.flatMap_cons, ← List.append_assoc]
    exact ih (quotable_literalPoint p hs)

theorem printable_stringLiteral (t : Text) :
    ∀ c ∈ (stringLiteral t).toList, IsPrintableAscii c := by
  rw [stringLiteral, String.toList_ofList]
  simp only [List.cons_append, List.forall_mem_cons, List.forall_mem_append,
    List.forall_mem_flatMap]
  exact ⟨by decide, fun p _ => printable_literalPoint p, by decide, List.forall_mem_nil _⟩

theorem newline_notMem_stringLiteral (t : Text) : '\n' ∉ (stringLiteral t).toList := by
  intro hmem
  exact absurd (printable_stringLiteral t _ hmem) (by decide)

theorem stringUnits?_stringLiteral (t : Text) (after : List Char) :
    stringUnits? ((stringLiteral t).toList ++ after) = some (t.units, after) := by
  have hread := literalUnits?_written t after
  rw [stringLiteral, String.toList_ofList, List.cons_append, List.cons_append, stringUnits?,
    List.append_assoc]
  exact hread

theorem stringLiteral_injective {t t' : Text} (ht : t.IsScalar) (ht' : t'.IsScalar)
    (h : stringLiteral t = stringLiteral t') : t = t' := by
  have hread := stringUnits?_stringLiteral t []
  rw [h, stringUnits?_stringLiteral t' [], Option.some.injEq, Prod.mk.injEq] at hread
  rw [← ofUnits_units ht, ← ofUnits_units ht', hread.1]

/-- The literal for a text stands for the text wherever it stands. It is printable ASCII, begins and
ends with a quote, and escapes all quotes in between. Whatever comes behind it, it is read up to its
last quote, as the code units of the text; so different texts have different literals. -/
theorem literal_denotes {t : Text} (ht : t.IsScalar) :
    (∀ c ∈ (stringLiteral t).toList, IsPrintableAscii c) ∧
      (∃ inner, (stringLiteral t).toList = '"' :: inner ++ ['"'] ∧ QuotesEscaped inner ∧
        ¬ EscapesNext inner) ∧
      (∀ after, stringUnits? ((stringLiteral t).toList ++ after) = some (t.units, after)) ∧
      (∀ t' : Text, t'.IsScalar → (stringLiteral t = stringLiteral t' ↔ t = t')) ∧
      '\n' ∉ (stringLiteral t).toList := by
  refine ⟨printable_stringLiteral t, ?quotes, stringUnits?_stringLiteral t, ?apart,
    newline_notMem_stringLiteral t⟩
  case quotes =>
    obtain ⟨hescaped, hclosed⟩ := quotable_literalPoints t isQuotable_nil
    exact ⟨_, String.toList_ofList .., hescaped, hclosed⟩
  case apart =>
    intro t' ht'
    exact ⟨stringLiteral_injective ht ht', congrArg _⟩

/-- A quote, a backslash in front of a letter, a control character and an emoji. -/
def quoteAndEmoji : Text := Text.ofString "\"\\u\x7f😀"

theorem literal_denotes_quoteAndEmoji :
    quoteAndEmoji.IsScalar ∧
      stringLiteral quoteAndEmoji = "\"\\\"\\\\u\\u007f\\ud83d\\ude00\"" ∧
      stringUnits? ((stringLiteral quoteAndEmoji).toList ++ ", 1".toList) =
        some ([0x22, 0x5C, 0x75, 0x7F, 0xD83D, 0xDE00], ", 1".toList) := by
  have hscalar : quoteAndEmoji.IsScalar := by simp [quoteAndEmoji, Text.IsScalar, Text.ofString]
  have hunits : quoteAndEmoji.units = [0x22, 0x5C, 0x75, 0x7F, 0xD83D, 0xDE00] := by decide +kernel
  obtain ⟨-, -, hread, -⟩ := literal_denotes hscalar
  rw [hread, hunits]
  exact ⟨hscalar, by decide +kernel, rfl⟩

end Script
end CaseScript
