import CaseScript.Name.Fault

/-!
# Identifiers of names

No valid name holds a dollar sign, so the identifiers of valid names are told apart from each other,
from the reserved words and from the identifier that holds a subject.
-/

namespace CaseScript
namespace Name

variable {name other : Text}

theorem isPartPoint_of_isValid (h : isValid name = true) : ∀ p ∈ name, isPartPoint p = true := by
  match name, h with
  | .scalar c :: rest, h =>
    simp only [isValid, isHead, Bool.and_eq_true, List.all_eq_true] at h
    intro p hp
    rcases List.mem_cons.mp hp with rfl | hp
    · exact h.1.1
    · exact h.2 p hp

theorem scalar_shown_of_isPartPoint {p : CodePoint} (h : isPartPoint p = true) :
    .scalar p.shown = p := by
  cases p with
  | scalar c => rfl
  | surrogate offset => simp [isPartPoint] at h

/-- A valid name is what it shows as. -/
theorem ofString_shown (h : isValid name = true) : Text.ofString name.shown = name := by
  have hscalar : name.map (fun p => CodePoint.scalar p.shown) = name.map id :=
    List.map_congr_left fun p hp => scalar_shown_of_isPartPoint (isPartPoint_of_isValid h p hp)
  simpa [Text.ofString, Text.shown, Function.comp_def] using hscalar

theorem isPart_of_mem_shown (h : isValid name = true) :
    ∀ c ∈ name.shown.toList, isPart c = true := by
  intro c hc
  simp only [Text.shown, String.toList_ofList, List.mem_map] at hc
  obtain ⟨p, hp, rfl⟩ := hc
  have hpart := isPartPoint_of_isValid h p hp
  rw [← scalar_shown_of_isPartPoint hpart] at hpart
  exact hpart

theorem dollar_notMem_shown (h : isValid name = true) : '$' ∉ name.shown.toList :=
  fun hc => by
    simpa using (isPart_of_mem_shown h '$' hc).symm.trans (by decide : isPart '$' = false)

theorem shown_ne_empty (h : isValid name = true) : name.shown.toList ≠ [] := by
  match name, h with
  | .scalar c :: rest, _ => simp [Text.shown]

/-- The characters of an identifier: those of the name, and perhaps a dollar sign. -/
theorem toList_identifier (name : Text) :
    (name.shown ∉ reserved ∧ (identifier name).toList = name.shown.toList) ∨
      (name.shown ∈ reserved ∧ (identifier name).toList = name.shown.toList ++ ['$']) := by
  unfold identifier
  by_cases h : name.shown ∈ reserved
  · exact .inr ⟨h, by simp [h]⟩
  · exact .inl ⟨h, by simp [h]⟩

theorem identifier_injective (hn : isValid name = true) (ho : isValid other = true)
    (h : identifier name = identifier other) : name = other := by
  have hl : (identifier name).toList = (identifier other).toList := by rw [h]
  have hshown : name.shown.toList = other.shown.toList := by
    rcases toList_identifier name with ⟨_, hname⟩ | ⟨_, hname⟩ <;>
      rcases toList_identifier other with ⟨_, hother⟩ | ⟨_, hother⟩ <;>
      rw [hname, hother] at hl
    · exact hl
    · exact absurd (hl ▸ List.mem_append_right _ (List.mem_singleton_self '$'))
        (dollar_notMem_shown hn)
    · exact absurd (hl ▸ List.mem_append_right _ (List.mem_singleton_self '$'))
        (dollar_notMem_shown ho)
    · exact List.append_cancel_right hl
  rw [← ofString_shown hn, ← ofString_shown ho, String.toList_injective hshown]

/-- Reserved words are not among the identifiers, since none of them holds a dollar sign. -/
theorem identifier_notMem_reserved (name : Text) : identifier name ∉ reserved := by
  have hdollar : ∀ word ∈ reserved, '$' ∉ word.toList := by decide +kernel
  intro hmem
  rcases toList_identifier name with ⟨hnot, hlist⟩ | ⟨_, hlist⟩
  · exact hnot (String.toList_injective hlist ▸ hmem)
  · exact hdollar _ hmem (by rw [hlist]; simp)

theorem identifier_ne_subject (h : isValid name = true) : identifier name ≠ subject := by
  intro he
  have hl : (identifier name).toList = ['$'] := by rw [he]; rfl
  rcases toList_identifier name with ⟨_, hlist⟩ | ⟨_, hlist⟩
  · exact dollar_notMem_shown h (by rw [← hlist, hl]; simp)
  · rw [hlist] at hl
    exact shown_ne_empty h
      (List.append_eq_singleton_iff.mp hl |>.elim (·.1) fun hr => by simp at hr)

theorem identifierAt_eq_ok {trail : Trail} {x : String} :
    identifierAt trail name = .ok x ↔ isValid name = true ∧ identifier name = x := by
  rw [identifierAt]
  split <;> simp_all

theorem identifierAt_eq_error {trail : Trail} {fault : NamingFault}
    (h : identifierAt trail name = .error fault) :
    isValid name = false ∧ fault = .invalidName name trail := by
  unfold identifierAt at h
  split at h
  · cases h
  · rename_i hvalid
    cases h
    exact ⟨by simpa using hvalid, rfl⟩

/-- Does an identifier stand for a valid name? -/
def Identifies (x : String) : Prop := ∃ name, isValid name = true ∧ x = identifier name

theorem Identifies.ne_subject {x : String} (h : Identifies x) : x ≠ subject := by
  obtain ⟨name, hvalid, rfl⟩ := h
  exact identifier_ne_subject hvalid

end Name
end CaseScript
