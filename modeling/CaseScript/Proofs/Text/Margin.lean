import CaseScript.Doc.Layout
import Mathlib.Data.List.DropRight

/-!
# Margins

The margin of a text is the number of spaces that its last line starts with. It stays as it is while
text is written behind the first other character of the line.
-/

namespace CaseScript
namespace Text

/-- What stands behind the last newline. -/
def lastLine (s : List Char) : List Char := s.rtakeWhile (· ≠ '\n')

/-- The number of spaces at the start of the last line. -/
def margin (s : List Char) : Nat := ((lastLine s).takeWhile (· = ' ')).length

/-- Does the last line hold more than spaces? -/
def Inked (s : List Char) : Prop := ∃ c ∈ lastLine s, c ≠ ' '

variable {s t : List Char} {i : Int}

theorem lastLine_append (h : '\n' ∉ t) : lastLine (s ++ t) = lastLine s ++ t := by
  induction t using List.reverseRecOn with
  | nil => rw [List.append_nil, List.append_nil]
  | append_singleton t c ih =>
    rw [List.mem_append, List.mem_singleton, not_or] at h
    have hc : (c ≠ '\n') := fun he => h.2 he.symm
    rw [← List.append_assoc, lastLine, List.rtakeWhile_concat_pos _ _ _ (by simpa using hc),
      ← lastLine, ih h.1, List.append_assoc]

theorem lastLine_newline (s : List Char) (i : Int) :
    lastLine (s ++ Doc.newline i) = List.replicate i.toNat ' ' := by
  have hspaces : '\n' ∉ List.replicate i.toNat ' ' := fun h =>
    absurd (List.eq_of_mem_replicate h) (by decide)
  have hend : lastLine (s ++ ['\n']) = [] := by
    rw [lastLine, List.rtakeWhile_concat_neg _ _ _ (by decide)]
  rw [Doc.newline, List.append_cons, lastLine_append hspaces, hend, List.nil_append]

theorem length_lastLine_append_le (s t : List Char) :
    (lastLine (s ++ t)).length ≤ (lastLine s).length + t.length := by
  induction t using List.reverseRecOn with
  | nil => simp
  | append_singleton t c ih =>
    rw [← List.append_assoc, lastLine, List.rtakeWhile_concat, ← lastLine]
    split <;> simp
    omega

theorem margin_newline (s : List Char) (i : Int) : margin (s ++ Doc.newline i) = i.toNat := by
  rw [margin, lastLine_newline, List.takeWhile_replicate]
  simp

theorem Inked.append (h : Inked s) (ht : '\n' ∉ t) : Inked (s ++ t) := by
  obtain ⟨c, hc, hne⟩ := h
  exact ⟨c, by rw [lastLine_append ht]; exact List.mem_append_left t hc, hne⟩

theorem inked_append {c : Char} (ht : '\n' ∉ t) (hc : c ∈ t) (hne : c ≠ ' ') : Inked (s ++ t) :=
  ⟨c, by rw [lastLine_append ht]; exact List.mem_append_right _ hc, hne⟩

/-- Behind the first ink of a line nothing changes its margin. -/
theorem Inked.margin_append (h : Inked s) (ht : '\n' ∉ t) : margin (s ++ t) = margin s := by
  obtain ⟨c, hc, hne⟩ := h
  rw [margin, margin, lastLine_append ht, List.takeWhile_append, if_neg]
  intro hlength
  have hall := List.takeWhile_eq_self_iff.mp
    ((List.takeWhile_prefix (· = ' ')).eq_of_length hlength)
  exact hne (by simpa using hall c hc)

theorem margin_append_ink {c : Char} (ht : '\n' ∉ c :: t) (hne : c ≠ ' ') :
    margin (s ++ c :: t) = margin s := by
  rw [margin, margin, lastLine_append ht, List.takeWhile_append]
  split
  · rename_i hlength
    rw [List.takeWhile_cons_of_neg (by simpa using hne), List.append_nil,
      (List.takeWhile_prefix (· = ' ')).eq_of_length hlength]
  · rfl

end Text
end CaseScript
