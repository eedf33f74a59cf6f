import CaseScript.Text.Blank

/-!
# Operators

An operator is written into a script as it stands, so it must be one token: at least one character
and no blank.
-/

namespace CaseScript
namespace Text

def isOperator (op : Text) : Bool := !op.isEmpty && !op.any CodePoint.isBlank

theorem isOperator_iff {op : Text} :
    isOperator op = true ↔ op ≠ [] ∧ ∀ p ∈ op, p.isBlank = false := by
  simp [isOperator]

end Text
end CaseScript
