import CaseScript.Assoc

/-!
# Laws of association lists

Entries inserted one after another: the keys are those of all entries, each once, and every key has
the value that was inserted last.
-/

namespace CaseScript
namespace Assoc

variable {κ α β : Type} [DecidableEq κ]

def insertAll (entries new : List (κ × α)) : List (κ × α) :=
  new.foldl (fun entries entry => insert entry.1 entry.2 entries) entries

@[simp] theorem insertAll_nil (entries : List (κ × α)) : insertAll entries [] = entries := rfl

@[simp] theorem insertAll_cons (entries : List (κ × α)) (entry : κ × α) (new : List (κ × α)) :
    insertAll entries (entry :: new) = insertAll (insert entry.1 entry.2 entries) new := rfl

theorem mem_insert {key : κ} {value : α} {entries : List (κ × α)} {entry : κ × α}
    (h : entry ∈ insert key value entries) : entry = (key, value) ∨ entry ∈ entries := by
  induction entries with
  | nil => exact .inl (List.mem_singleton.mp h)
  | cons first rest ih =>
    unfold insert at h
    split at h
    · exact (List.mem_cons.mp h).imp_right (List.mem_cons_of_mem _)
    · rcases List.mem_cons.mp h with rfl | hrest
      · exact .inr List.mem_cons_self
      · exact (ih hrest).imp_right (List.mem_cons_of_mem _)

theorem mem_keys_insert {key other : κ} {value : α} {entries : List (κ × α)} :
    other ∈ (insert key value entries).map Prod.fst ↔
      other = key ∨ other ∈ entries.map Prod.fst := by
  induction entries with
  | nil => simp [insert]
  | cons entry rest ih =>
    by_cases h : entry.1 = key
    · simp [insert, h]
    · simp only [insert, h, if_false, List.map_cons, List.mem_cons, ih]
      exact or_left_comm

theorem keys_insert (key : κ) (value : α) (entries : List (κ × α)) :
    (insert key value entries).map Prod.fst =
      if key ∈ entries.map Prod.fst then entries.map Prod.fst
      else entries.map Prod.fst ++ [key] := by
  induction entries with
  | nil => rfl
  | cons entry rest ih =>
    by_cases h : entry.1 = key
    · simp [insert, h]
    · have hne : key ≠ entry.1 := Ne.symm h
      simp only [insert, h, if_false, List.map_cons, ih, List.mem_cons, hne, false_or]
      split <;> rfl

theorem nodup_keys_insert {key : κ} {value : α} {entries : List (κ × α)}
    (h : (entries.map Prod.fst).Nodup) : ((insert key value entries).map Prod.fst).Nodup := by
  induction entries with
  | nil => simp [insert]
  | cons entry rest ih =>
    obtain ⟨hnew, hrest⟩ := List.nodup_cons.mp h
    by_cases he : entry.1 = key
    · simpa [insert, he] using h
    · simp only [insert, he, if_false, List.map_cons, List.nodup_cons]
      refine ⟨?_, ih hrest⟩
      rw [mem_keys_insert]
      rintro (hk | hk)
      · exact he hk
      · exact hnew hk

theorem mem_keys_insertAll {key : κ} {entries new : List (κ × α)} :
    key ∈ (insertAll entries new).map Prod.fst ↔
      key ∈ entries.map Prod.fst ∨ key ∈ new.map Prod.fst := by
  induction new generalizing entries with
  | nil => simp
  | cons entry rest ih =>
    rw [insertAll_cons, ih, mem_keys_insert, List.map_cons, List.mem_cons, or_assoc, or_left_comm]

/-- The new keys stand behind the old ones, in the order of their first occurrences. -/
theorem keys_insertAll [BEq κ] [LawfulBEq κ] (entries new : List (κ × α)) :
    (insertAll entries new).map Prod.fst = entries.map Prod.fst ++
      ((new.map Prod.fst).filter fun key => key ∉ entries.map Prod.fst).eraseDups := by
  induction new generalizing entries with
  | nil => simp
  | cons entry rest ih =>
    rw [insertAll_cons, ih, keys_insert, List.map_cons, List.filter_cons]
    by_cases h : entry.1 ∈ entries.map Prod.fst
    · rw [if_pos h, if_neg (by simpa using h)]
    · have hsplit :
          ((rest.map Prod.fst).filter fun key => key ∉ entries.map Prod.fst ++ [entry.1]) =
          ((rest.map Prod.fst).filter fun key => key ∉ entries.map Prod.fst).filter
            fun key => !key == entry.1 := by
        rw [List.filter_filter]
        apply List.filter_congr
        intro key _
        rw [Bool.eq_iff_iff]
        simp [and_comm]
      rw [if_neg h, if_pos (decide_eq_true h), List.eraseDups_cons, hsplit, List.append_assoc,
        List.singleton_append]

theorem keys_insertAll_nil [BEq κ] [LawfulBEq κ] (new : List (κ × α)) :
    (insertAll [] new).map Prod.fst = (new.map Prod.fst).eraseDups := by
  have hall : ((new.map Prod.fst).filter fun key => key ∉ ([] : List (κ × α)).map Prod.fst) =
      new.map Prod.fst := List.filter_eq_self.mpr (by simp)
  rw [keys_insertAll, hall]
  rfl

theorem nodup_keys_insertAll {entries new : List (κ × α)} (h : (entries.map Prod.fst).Nodup) :
    ((insertAll entries new).map Prod.fst).Nodup := by
  induction new generalizing entries with
  | nil => exact h
  | cons entry rest ih => exact ih (nodup_keys_insert h)

/-- The last of the new entries with a key counts, before any older one. -/
theorem lookup_insertAll [BEq κ] [LawfulBEq κ] (key : κ) (entries new : List (κ × α)) :
    (insertAll entries new).lookup key = (new.reverse.lookup key).or (entries.lookup key) := by
  induction new generalizing entries with
  | nil => simp
  | cons entry rest ih =>
    obtain ⟨first, value⟩ := entry
    rw [insertAll_cons, ih, List.reverse_cons, List.lookup_append, Option.or_assoc]
    by_cases h : key = first
    · subst h
      simp
    · simp [lookup_insert_of_ne h, List.lookup_cons, beq_false_of_ne h]

theorem map_insert (f : α → β) (key : κ) (value : α) (entries : List (κ × α)) :
    (insert key value entries).map (Prod.map id f) =
      insert key (f value) (entries.map (Prod.map id f)) := by
  induction entries with
  | nil => rfl
  | cons entry rest ih =>
    by_cases h : entry.1 = key
    · simp [insert, h]
    · have hmapped : ¬ (Prod.map id f entry).1 = key := h
      simp only [insert, List.map_cons, if_neg h, if_neg hmapped, ih]

theorem map_insertAll (f : α → β) (entries new : List (κ × α)) :
    (insertAll entries new).map (Prod.map id f) =
      insertAll (entries.map (Prod.map id f)) (new.map (Prod.map id f)) := by
  induction new generalizing entries with
  | nil => rfl
  | cons entry rest ih => rw [insertAll_cons, ih, map_insert]; rfl

omit [DecidableEq κ] in
theorem lookup_of_mem [BEq κ] [LawfulBEq κ] {key : κ} {value : α} {entries : List (κ × α)}
    (hn : (entries.map Prod.fst).Nodup) (h : (key, value) ∈ entries) :
    entries.lookup key = some value := by
  induction entries with
  | nil => simp at h
  | cons entry rest ih =>
    obtain ⟨first, other⟩ := entry
    obtain ⟨hnew, hrest⟩ := List.nodup_cons.mp hn
    rcases List.mem_cons.mp h with he | hr
    · cases he
      simp
    · have hne : key ≠ first := by
        rintro rfl
        exact hnew (List.mem_map.mpr ⟨(key, value), hr, rfl⟩)
      rw [List.lookup_cons, beq_false_of_ne hne]
      exact ih hrest hr

omit [DecidableEq κ] in
theorem lookup_eq_none_iff_notMem_keys [BEq κ] [LawfulBEq κ] {key : κ} {entries : List (κ × α)} :
    entries.lookup key = none ↔ key ∉ entries.map Prod.fst := by
  rw [List.lookup_eq_none_iff]
  constructor
  · intro h hmem
    obtain ⟨entry, hentry, rfl⟩ := List.mem_map.mp hmem
    simpa using h entry hentry
  · intro h entry hentry
    rw [bne_iff_ne]
    rintro rfl
    exact h (List.mem_map_of_mem hentry)

end Assoc
end CaseScript
