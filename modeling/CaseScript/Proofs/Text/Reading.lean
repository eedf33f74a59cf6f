/-!
# Reading what was written

A word or a number is read from the front of a text up to the first character that cannot belong to
it. It is read back unless such a character comes right behind it.
-/

namespace CaseScript
namespace Text

/-- Is the first character, if there is one, outside a class? -/
def Ends (p : Char → Bool) (s : List Char) : Prop := ∀ c ∈ s.head?, p c = false

variable {p : Char → Bool} {s rest : List Char}

theorem ends_nil : Ends p [] := by simp [Ends]

theorem ends_cons {c : Char} (h : p c = false) : Ends p (c :: rest) := by simpa [Ends] using h

theorem takeWhile_append (hs : ∀ c ∈ s, p c = true) (h : Ends p rest) :
    (s ++ rest).takeWhile p = s := by
  rw [List.takeWhile_append_of_pos hs]
  cases rest with
  | nil => simp
  | cons c rest => rw [List.takeWhile_cons_of_neg (by simp [h c rfl]), List.append_nil]

theorem dropWhile_append (hs : ∀ c ∈ s, p c = true) (h : Ends p rest) :
    (s ++ rest).dropWhile p = rest := by
  rw [List.dropWhile_append_of_pos hs]
  cases rest with
  | nil => rfl
  | cons c rest => rw [List.dropWhile_cons_of_neg (by simp [h c rfl])]

/-- A text with one more character is cut at a character inside the text or right behind it. -/
theorem cut_snoc {before after : List Char} {c d : Char} (h : s ++ [c] = before ++ d :: after) :
    (∃ front, s = before ++ d :: front) ∨ (s = before ∧ c = d) := by
  rcases List.eq_nil_or_concat after with rfl | ⟨front, last, rfl⟩
  · obtain ⟨hs, hc⟩ := List.append_inj' h rfl
    exact .inr ⟨hs, (List.cons.inj hc).1⟩
  · have hsplit : s ++ [c] = (before ++ d :: front) ++ [last] := by
      rw [h, List.concat_eq_append, List.append_assoc, List.cons_append]
    exact .inl ⟨front, (List.append_inj' hsplit rfl).1⟩

/-- The digits at the front of a text. -/
def digits (s : List Char) : List Char := s.takeWhile Char.isDigit

def afterDigits (s : List Char) : List Char := s.dropWhile Char.isDigit

def number (s : List Char) : Nat := Nat.ofDigitChars 10 (digits s) 0

theorem toList_toString (n : Nat) : (toString n).toList = Nat.toDigits 10 n := by
  rw [Nat.toString_eq_ofList_toDigits, String.toList_ofList]

theorem isDigit_of_mem_toString {n : Nat} {c : Char} (h : c ∈ (toString n).toList) :
    c.isDigit = true := by
  rw [toList_toString] at h
  exact Nat.isDigit_of_mem_toDigits (by decide) (by decide) h

theorem toString_ne_nil (n : Nat) : (toString n).toList ≠ [] := by
  rw [toList_toString]
  exact Nat.toDigits_ne_nil

theorem digits_toString (n : Nat) (h : Ends Char.isDigit rest) :
    digits ((toString n).toList ++ rest) = (toString n).toList :=
  takeWhile_append (fun _ => isDigit_of_mem_toString) h

theorem afterDigits_toString (n : Nat) (h : Ends Char.isDigit rest) :
    afterDigits ((toString n).toList ++ rest) = rest :=
  dropWhile_append (fun _ => isDigit_of_mem_toString) h

theorem number_toString (n : Nat) (h : Ends Char.isDigit rest) :
    number ((toString n).toList ++ rest) = n := by
  rw [number, digits_toString n h, toList_toString]
  exact Nat.ofDigitChars_ten_toDigits

theorem toString_signed (n : Int) :
    toString n = if 0 ≤ n then toString n.toNat else "-" ++ toString (-n).toNat :=
  Int.repr_eq_if

theorem toString_int_injective {n n' : Int} (h : toString n = toString n') : n = n' := by
  have hnat : ∀ m m' : Nat, (toString m).toList = (toString m').toList → m = m' := by
    intro m m' h
    rw [← number_toString m ends_nil, h, number_toString m' ends_nil]
  have hsign : ∀ m m' : Nat, (toString m).toList ≠ '-' :: (toString m').toList := by
    intro m m' h
    have hdigit : '-'.isDigit = true := isDigit_of_mem_toString (h ▸ List.mem_cons_self)
    cases hdigit
  have hminus : "-".toList = ['-'] := rfl
  have hlist := congrArg String.toList h
  rw [toString_signed n, toString_signed n'] at hlist
  split at hlist <;> split at hlist
  · have hvalues := hnat _ _ hlist
    omega
  · rw [String.toList_append, hminus] at hlist
    exact absurd hlist (hsign _ _)
  · rw [String.toList_append, hminus] at hlist
    exact absurd hlist.symm (hsign _ _)
  · rw [String.toList_append, String.toList_append, hminus] at hlist
    have hvalues := hnat _ _ (List.cons.inj hlist).2
    omega

end Text
end CaseScript
