import CaseScript.Proofs.Text.Reading
import CaseScript.Text.Ansi
import Mathlib.Data.List.TakeWhile

/-!
# Leaving out escape sequences

A text is left as it is up to its first escape sequence, and goes on behind it. The sequences may be
left out before two texts are joined or after it, unless one of them begins in the first text and
ends in the second.
-/

namespace CaseScript
namespace Text

/-! ## Forms of sequences -/

/-- Have the three kinds of characters no member in common? -/
structure EscapeForm.IsApart (form : EscapeForm) : Prop where
  intermediate : ∀ c, form.isIntermediate c = true → form.isParameter c = false
  final : ∀ c, form.isFinal c = true → form.isParameter c = false ∧ form.isIntermediate c = false

/-- Can a character stand in no sequence, other than at its front? -/
structure EscapeForm.IsForeign (form : EscapeForm) (c : Char) : Prop where
  ne_bracket : c ≠ '['
  parameter : form.isParameter c = false
  intermediate : form.isIntermediate c = false
  final : form.isFinal c = false

/-- Can no sequence go on behind a character? -/
structure EscapeForm.IsClosing (form : EscapeForm) (c : Char) : Prop where
  ne_escape : c ≠ escapeChar
  ne_bracket : c ≠ '['
  parameter : form.isParameter c = false
  intermediate : form.isIntermediate c = false

/-- The sequences with any number of digits, semicolons and question marks and with a letter of the
ASCII range at the end. Those that set colours are among them. -/
def letterSequence : EscapeForm where
  isParameter c := c = ';' || c = '?' || '0' ≤ c && c ≤ '9'
  isIntermediate _ := false
  isFinal c := 'a' ≤ c && c ≤ 'z' || 'A' ≤ c && c ≤ 'Z'

theorem isApart_letterSequence : letterSequence.IsApart where
  intermediate := nofun
  final c hfinal := by
    refine ⟨Bool.eq_false_iff.mpr fun hparameter => ?_, rfl⟩
    have hkinds : c = ';' ∨ c = '?' ∨ '0' ≤ c ∧ c ≤ '9' := by
      simpa [letterSequence, or_assoc] using hparameter
    rcases hkinds with rfl | rfl | hdigit
    · exact absurd hfinal (by decide)
    · exact absurd hfinal (by decide)
    · grind [letterSequence, Char.le_def, UInt32.le_iff_toNat_le]

theorem isApart_controlSequence : controlSequence.IsApart where
  intermediate c hc := by grind [controlSequence, Char.le_def, UInt32.le_iff_toNat_le]
  final c hc := by grind [controlSequence, Char.le_def, UInt32.le_iff_toNat_le]

/-! ## Sequences -/

variable {form : EscapeForm} {s rest : List Char}

/-- Is a text one escape sequence, from the character that begins it to the final one? -/
inductive IsSequence (form : EscapeForm) : List Char → Prop
  | intro {parameters intermediates : List Char} {final : Char}
    (hparameters : ∀ c ∈ parameters, form.isParameter c = true)
    (hintermediates : ∀ c ∈ intermediates, form.isIntermediate c = true)
    (hfinal : form.isFinal final = true) :
    IsSequence form (escapeChar :: '[' :: (parameters ++ (intermediates ++ [final])))

theorem exists_sequence {after : List Char} (h : afterEscape? form s = some after) :
    ∃ sequence, IsSequence form sequence ∧ s = sequence ++ after := by
  unfold afterEscape? at h
  split at h
  · rename_i c rest
    split at h
    · rename_i hc
      subst hc
      split at h
      · cases h
      · rename_i final tail heq
        split at h
        · rename_i hfinal
          obtain rfl := Option.some.inj h
          have hparameters := List.takeWhile_append_dropWhile (p := form.isParameter) (l := rest)
          have hintermediates := List.takeWhile_append_dropWhile (p := form.isIntermediate)
            (l := rest.dropWhile form.isParameter)
          rw [heq] at hintermediates
          have hfront : ∀ (p : Char → Bool) (l : List Char), ∀ c ∈ l.takeWhile p, p c = true :=
            fun _ _ _ => List.mem_takeWhile_imp
          refine ⟨_, .intro (hfront form.isParameter rest)
            (hfront form.isIntermediate (rest.dropWhile form.isParameter)) hfinal, ?_⟩
          rw [List.cons_append, List.cons_append, List.append_assoc, List.append_assoc,
            List.singleton_append, hintermediates, hparameters]
        · cases h
    · cases h
  · cases h

theorem isSequence_of_afterEscape? (h : afterEscape? form s = some []) : IsSequence form s := by
  obtain ⟨sequence, hsequence, rfl⟩ := exists_sequence h
  rwa [List.append_nil]

theorem afterEscape?_append (happart : form.IsApart) {sequence : List Char}
    (h : IsSequence form sequence) (rest : List Char) :
    afterEscape? form (sequence ++ rest) = some rest := by
  cases h with
  | @intro parameters intermediates final hparameters hintermediates hfinal =>
    have hend : Ends form.isIntermediate (final :: rest) :=
      ends_cons (happart.final final hfinal).2
    have hmiddle : Ends form.isParameter (intermediates ++ final :: rest) := by
      cases intermediates with
      | nil => exact ends_cons (happart.final final hfinal).1
      | cons c intermediates =>
        exact ends_cons (happart.intermediate c (hintermediates c List.mem_cons_self))
    rw [List.cons_append, List.cons_append, List.append_assoc, List.append_assoc,
      List.singleton_append, afterEscape?, if_pos rfl, dropWhile_append hparameters hmiddle,
      dropWhile_append hintermediates hend]
    exact if_pos hfinal

theorem IsSequence.exists_cons (h : IsSequence form s) : ∃ tail, s = escapeChar :: tail := by
  cases h
  exact ⟨_, rfl⟩

/-- The characters of a sequence by their places. -/
theorem IsSequence.kind {front back : List Char} {c : Char}
    (h : IsSequence form (front ++ c :: back)) :
    (front = [] ∧ c = escapeChar) ∨ c = '[' ∨ form.isParameter c = true ∨
      form.isIntermediate c = true ∨ (back = [] ∧ form.isFinal c = true) := by
  generalize heq : front ++ c :: back = sequence at h
  cases h with
  | @intro parameters intermediates final hparameters hintermediates hfinal =>
    cases front with
    | nil => exact .inl ⟨rfl, (List.cons.inj heq).1⟩
    | cons first front =>
      right
      have htail : front ++ c :: back = '[' :: (parameters ++ intermediates) ++ [final] := by
        rw [List.cons_append, List.append_assoc]
        exact (List.cons.inj heq).2
      rcases List.eq_nil_or_concat back with rfl | ⟨inner, last, rfl⟩
      · obtain ⟨-, hlast⟩ := List.append_inj' htail rfl
        obtain rfl := List.singleton_inj.mp hlast
        exact .inr (.inr (.inr ⟨rfl, hfinal⟩))
      · have hinner : front ++ c :: inner = '[' :: (parameters ++ intermediates) := by
          rw [List.concat_eq_append, ← List.cons_append, ← List.append_assoc] at htail
          exact (List.append_inj' htail rfl).1
        have hmem : c ∈ '[' :: (parameters ++ intermediates) := by
          rw [← hinner]
          exact List.mem_append_right _ List.mem_cons_self
        rw [List.mem_cons, List.mem_append] at hmem
        rcases hmem with hbracket | hparameter | hintermediate
        · exact .inl hbracket
        · exact .inr (.inl (hparameters c hparameter))
        · exact .inr (.inr (.inl (hintermediates c hintermediate)))

/-! ## What is left -/

/-- Is a text what is left of another one when its escape sequences are deleted from left to
right? -/
inductive WithoutEscapes (form : EscapeForm) : List Char → List Char → Prop
  | nil : WithoutEscapes form [] []
  | sequence {sequence s t : List Char} (hsequence : IsSequence form sequence)
    (h : WithoutEscapes form s t) : WithoutEscapes form (sequence ++ s) t
  | char {c : Char} {s t : List Char}
    (hnone : ∀ sequence, IsSequence form sequence → ¬ sequence <+: c :: s)
    (h : WithoutEscapes form s t) : WithoutEscapes form (c :: s) (c :: t)

theorem stripEscapes_of_afterEscape? {after : List Char} (h : afterEscape? form s = some after) :
    stripEscapes form s = stripEscapes form after := by
  rw [stripEscapes]
  split
  · rename_i other hother
    rw [h] at hother
    rw [Option.some.inj hother]
  · rename_i hnone
    rw [h] at hnone
    cases hnone

theorem stripEscapes_cons_of_eq_none {c : Char} (h : afterEscape? form (c :: rest) = none) :
    stripEscapes form (c :: rest) = c :: stripEscapes form rest := by
  rw [stripEscapes]
  split
  · rename_i after hafter
    rw [h] at hafter
    cases hafter
  · rfl

theorem stripEscapes_cons_of_ne {c : Char} (h : c ≠ escapeChar) (rest : List Char) :
    stripEscapes form (c :: rest) = c :: stripEscapes form rest := by
  apply stripEscapes_cons_of_eq_none
  unfold afterEscape?
  split
  · rename_i first tail heq
    obtain ⟨rfl, -⟩ := List.cons.inj heq
    rw [if_neg h]
  · rfl

theorem stripEscapes_append_of_isSequence (happart : form.IsApart) {sequence : List Char}
    (h : IsSequence form sequence) (rest : List Char) :
    stripEscapes form (sequence ++ rest) = stripEscapes form rest :=
  stripEscapes_of_afterEscape? (afterEscape?_append happart h rest)

theorem afterEscape?_eq_none_iff (happart : form.IsApart) :
    afterEscape? form s = none ↔ ∀ sequence, IsSequence form sequence → ¬ sequence <+: s := by
  refine ⟨?_, fun h => ?_⟩
  · rintro hnone sequence hsequence ⟨after, rfl⟩
    rw [afterEscape?_append happart hsequence] at hnone
    cases hnone
  · by_contra hne
    obtain ⟨after, hafter⟩ := Option.ne_none_iff_exists'.mp hne
    obtain ⟨sequence, hsequence, rfl⟩ := exists_sequence hafter
    exact h sequence hsequence (List.prefix_append _ _)

theorem withoutEscapes_stripEscapes (happart : form.IsApart) (s : List Char) :
    WithoutEscapes form s (stripEscapes form s) := by
  fun_induction stripEscapes form s with
  | case1 s after hafter ih =>
    obtain ⟨sequence, hsequence, rfl⟩ := exists_sequence hafter
    exact .sequence hsequence ih
  | case2 => exact .nil
  | case3 c rest hnone ih => exact .char ((afterEscape?_eq_none_iff happart).mp hnone) ih

theorem withoutEscapes_iff (happart : form.IsApart) {t : List Char} :
    WithoutEscapes form s t ↔ t = stripEscapes form s := by
  constructor
  · intro h
    induction h with
    | nil => exact (stripEscapes_nil form).symm
    | sequence hsequence h ih => rw [ih, stripEscapes_append_of_isSequence happart hsequence]
    | char hnone h ih =>
      rw [ih, stripEscapes_cons_of_eq_none ((afterEscape?_eq_none_iff happart).mpr hnone)]
  · rintro rfl
    exact withoutEscapes_stripEscapes happart s

/-- A text without the character that begins all escape sequences has nothing to leave out. -/
theorem stripEscapes_eq_self (h : escapeChar ∉ s) : stripEscapes form s = s := by
  induction s with
  | nil => exact stripEscapes_nil form
  | cons c rest ih =>
    rw [List.mem_cons, not_or] at h
    rw [stripEscapes_cons_of_ne (Ne.symm h.1), ih h.2]

theorem plain_eq_self {t : String} (h : escapeChar ∉ t.toList) : plain t = t := by
  rw [plain, stripEscapes_eq_self h, String.ofList_toList]

/-! ## Joined texts -/

/-- Does no sequence begin in one text and end in the next? -/
def IsParted (form : EscapeForm) (s rest : List Char) : Prop :=
  ∀ front back, front <:+ s → back <+: rest → front ≠ [] → back ≠ [] →
    ¬ IsSequence form (front ++ back)

theorem stripEscapes_append (happart : form.IsApart) (h : IsParted form s rest) :
    stripEscapes form (s ++ rest) = stripEscapes form s ++ stripEscapes form rest := by
  fun_induction stripEscapes form s with
  | case1 s after hafter ih =>
    obtain ⟨sequence, hsequence, rfl⟩ := exists_sequence hafter
    rw [List.append_assoc, stripEscapes_append_of_isSequence happart hsequence]
    exact ih fun front back hfront => h front back (hfront.trans (List.suffix_append _ _))
  | case2 => rfl
  | case3 c tail hnone ih =>
    rw [afterEscape?_eq_none_iff happart] at hnone
    -- A sequence at the front would lie in the first text or reach over the seam.
    have hjoined : afterEscape? form (c :: tail ++ rest) = none := by
      rw [afterEscape?_eq_none_iff happart]
      intro sequence hsequence hprefix
      rcases List.prefix_or_prefix_of_prefix hprefix (List.prefix_append (c :: tail) rest) with
        hinside | ⟨back, rfl⟩
      · exact hnone sequence hsequence hinside
      · rw [List.prefix_append_right_inj] at hprefix
        by_cases hback : back = []
        · subst hback
          rw [List.append_nil] at hsequence
          exact hnone _ hsequence (List.prefix_refl _)
        · exact h _ back (List.suffix_refl _) hprefix (List.cons_ne_nil _ _) hback hsequence
    rw [List.cons_append] at hjoined ⊢
    rw [stripEscapes_cons_of_eq_none hjoined, List.cons_append,
      ih fun front back hfront => h front back (hfront.trans (List.suffix_cons _ _))]

theorem isParted_of_notMem (h : escapeChar ∉ s) : IsParted form s rest := by
  intro front back hfront _ hne _ hsequence
  obtain ⟨c, front, rfl⟩ := List.exists_cons_of_ne_nil hne
  obtain ⟨tail, htail⟩ := hsequence.exists_cons
  obtain ⟨rfl, -⟩ := List.cons.inj htail
  exact h (hfront.subset List.mem_cons_self)

theorem isParted_cons {c : Char} (hc : form.IsForeign c) : IsParted form s (c :: rest) := by
  intro front back _ hback hfront hne hsequence
  obtain ⟨d, back, rfl⟩ := List.exists_cons_of_ne_nil hne
  obtain ⟨rfl, -⟩ := List.cons_prefix_cons.mp hback
  rcases hsequence.kind with ⟨hnil, -⟩ | hbracket | hparameter | hintermediate | ⟨-, hfinal⟩
  · exact hfront hnil
  · exact hc.ne_bracket hbracket
  · exact Bool.false_ne_true (hc.parameter.symm.trans hparameter)
  · exact Bool.false_ne_true (hc.intermediate.symm.trans hintermediate)
  · exact Bool.false_ne_true (hc.final.symm.trans hfinal)

theorem isParted_snoc {c : Char} (hc : form.IsClosing c) : IsParted form (s ++ [c]) rest := by
  intro front back hfront _ hne hback hsequence
  obtain ⟨front, d, rfl⟩ := (List.eq_nil_or_concat front).resolve_left hne
  obtain ⟨before, hbefore⟩ := hfront
  rw [List.concat_eq_append] at hbefore hsequence
  rw [← List.append_assoc] at hbefore
  obtain ⟨-, hlast⟩ := List.append_inj' hbefore rfl
  obtain rfl := List.singleton_inj.mp hlast
  rw [List.append_assoc, List.singleton_append] at hsequence
  rcases hsequence.kind with ⟨-, hescape⟩ | hbracket | hparameter | hintermediate | ⟨hnil, -⟩
  · exact hc.ne_escape hescape
  · exact hc.ne_bracket hbracket
  · exact Bool.false_ne_true (hc.parameter.symm.trans hparameter)
  · exact Bool.false_ne_true (hc.intermediate.symm.trans hintermediate)
  · exact hback hnil

end Text
end CaseScript
