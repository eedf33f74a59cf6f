/-!
# Association lists

Pairs of a key and a value in the order in which the keys were first inserted.
-/

namespace CaseScript
namespace Assoc

variable {κ α : Type} [DecidableEq κ]

/-- Sets the value of a key: in its old place, or at the end if the key is new. -/
def insert (key : κ) (value : α) : List (κ × α) → List (κ × α)
  | [] => [(key, value)]
  | (other, old) :: rest =>
    if other = key then (key, value) :: rest else (other, old) :: insert key value rest

variable [BEq κ] [LawfulBEq κ]

@[simp] theorem lookup_insert_self (key : κ) (value : α) (entries : List (κ × α)) :
    (insert key value entries).lookup key = some value := by
  induction entries with
  | nil => simp [insert]
  | cons entry rest ih =>
    obtain ⟨other, old⟩ := entry
    by_cases h : other = key
    · simp [insert, h]
    · simp [insert, h, List.lookup_cons, beq_false_of_ne (Ne.symm h), ih]

theorem lookup_insert_of_ne {key other : κ} (h : other ≠ key) (value : α)
    (entries : List (κ × α)) :
    (insert key value entries).lookup other = entries.lookup other := by
  induction entries with
  | nil => simp [insert, h]
  | cons entry rest ih =>
    obtain ⟨first, old⟩ := entry
    by_cases hf : first = key
    · subst hf
      simp [insert, List.lookup_cons, beq_false_of_ne h]
    · simp [insert, hf, List.lookup_cons, ih]

end Assoc
end CaseScript
