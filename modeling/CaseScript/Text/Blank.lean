import CaseScript.Text.CodePoint

/-!
# Blank characters

White space as Unicode counts it, together with the four information separators.
-/

namespace CaseScript
namespace Text

/-- A range of code points, both ends included. -/
structure Range where
  first : Nat
  last : Nat

namespace Range

def contains (r : Range) (n : Nat) : Bool := r.first ≤ n && n ≤ r.last

@[simp] theorem contains_iff (r : Range) (n : Nat) :
    r.contains n = true ↔ r.first ≤ n ∧ n ≤ r.last := by
  simp [contains]

end Range

def blankRanges : List Range :=
  [⟨0x09, 0x0D⟩, ⟨0x1C, 0x20⟩, ⟨0x85, 0x85⟩, ⟨0xA0, 0xA0⟩, ⟨0x1680, 0x1680⟩, ⟨0x2000, 0x200A⟩,
    ⟨0x2028, 0x2029⟩, ⟨0x202F, 0x202F⟩, ⟨0x205F, 0x205F⟩, ⟨0x3000, 0x3000⟩]

def isBlank (c : Char) : Bool := blankRanges.any (·.contains c.toNat)

/-- Blanks that may surround a numeral: the information separators U+001C to U+001F may not. -/
def isPadding (c : Char) : Bool := isBlank c && !(Range.mk 0x1C 0x1F).contains c.toNat

theorem isBlank_of_isWhitespace {c : Char} (h : c.isWhitespace) : isBlank c := by
  simp only [Char.isWhitespace, Bool.or_eq_true, decide_eq_true_eq] at h
  rcases h with ((rfl | rfl) | rfl) | rfl <;> decide

end Text

/-- A lone surrogate is never blank. -/
def CodePoint.isBlank : CodePoint → Bool
  | .scalar c => Text.isBlank c
  | .surrogate _ => false

end CaseScript
