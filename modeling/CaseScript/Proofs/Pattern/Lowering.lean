import CaseScript.Pattern.Lowering
import CaseScript.Proofs.Assoc

/-!
# What a lowering consists of

A lowering that succeeds holds the checks that the pattern demands, in their order, and its bindings
are the demanded ones inserted one after another. What the subject is called plays no part in it.
-/

namespace CaseScript

variable {σ τ α : Type}

namespace Demand

def check? : Demand σ → Option (Check σ)
  | .check c => some c
  | .bind _ => none

def binding? : Demand σ → Option (Binding σ)
  | .check _ => none
  | .bind b => some b

end Demand

namespace Lowering

/-- The names of some bindings with what `f` makes of them. -/
def entries (f : Binding σ → α) (bindings : List (Binding σ)) : List (Text × α) :=
  bindings.map fun binding => (binding.name, f binding)

theorem keys_entries (f : Binding σ → α) (bindings : List (Binding σ)) :
    (entries f bindings).map Prod.fst = bindings.map (·.name) := by
  simp [entries]

theorem entries_setBinding (f : Binding σ → α) (binding : Binding σ)
    (bindings : List (Binding σ)) :
    entries f (setBinding binding bindings) =
      Assoc.insert binding.name (f binding) (entries f bindings) := by
  induction bindings with
  | nil => rfl
  | cons old rest ih =>
    by_cases h : old.name = binding.name
    · simp [entries, setBinding, Assoc.insert, h]
    · simpa [entries, setBinding, Assoc.insert, h] using ih

variable {shadowing : Bool} {lowering result : Lowering σ} {binding : Binding σ}
  {fault : NamingFault}

/-- A valid name can be bound that is new or that may shadow another. -/
theorem bind_eq_ok : lowering.bind shadowing binding = .ok result ↔
    Name.isValid binding.name = true ∧
      (shadowing = false → lowering.binding? binding.name = none) ∧
        result = { lowering with bindings := setBinding binding lowering.bindings } := by
  unfold Lowering.bind
  cases Name.isValid binding.name with
  | false => simp
  | true =>
    cases lowering.binding? binding.name with
    | none => simp [eq_comm]
    | some first => cases shadowing <;> simp [eq_comm]

/-- A name cannot be bound that is not valid or that is bound already and may not shadow. -/
theorem bind_eq_error : lowering.bind shadowing binding = .error fault ↔
    Name.isValid binding.name = false ∧ fault = .invalidName binding.name binding.trail ∨
      Name.isValid binding.name = true ∧ shadowing = false ∧
        ∃ first, lowering.binding? binding.name = some first ∧
          fault = .boundTwice binding.name first.trail binding.trail := by
  unfold Lowering.bind
  cases Name.isValid binding.name with
  | false => simp [eq_comm]
  | true =>
    cases lowering.binding? binding.name with
    | none => simp
    | some first => cases shadowing <;> simp [eq_comm]

/-- A demand can be met only if it adds a check or binds a name that can be bound. -/
theorem meet_eq_ok {demand : Demand σ} (h : lowering.meet shadowing demand = .ok result) :
    (∃ check, demand = .check check ∧
        result = { lowering with checks := lowering.checks ++ [check] }) ∨
      ∃ binding, demand = .bind binding ∧ Name.isValid binding.name = true ∧
        (shadowing = false → lowering.binding? binding.name = none) ∧
          result = { lowering with bindings := setBinding binding lowering.bindings } := by
  cases demand with
  | check check => exact .inl ⟨check, rfl, (Except.ok.inj h).symm⟩
  | bind binding => exact .inr ⟨binding, rfl, bind_eq_ok.mp h⟩

/-- Only a binding can be refused. -/
theorem meet_eq_error {demand : Demand σ} (h : lowering.meet shadowing demand = .error fault) :
    ∃ binding, demand = .bind binding ∧ lowering.bind shadowing binding = .error fault := by
  cases demand with
  | check check => cases h
  | bind binding => exact ⟨binding, rfl, h⟩

theorem of_meetAll {demands : List (Demand σ)}
    (h : lowering.meetAll shadowing demands = (result, none)) (f : Binding σ → α) :
    result.checks = lowering.checks ++ demands.filterMap Demand.check? ∧
      entries f result.bindings =
        Assoc.insertAll (entries f lowering.bindings)
          (entries f (demands.filterMap Demand.binding?)) ∧
      ∀ binding ∈ demands.filterMap Demand.binding?, Name.isValid binding.name = true := by
  induction demands generalizing lowering with
  | nil =>
    cases h
    simp [entries]
  | cons demand rest ih =>
    rw [meetAll] at h
    split at h
    · rename_i next hnext
      obtain ⟨hchecks, hentries, hvalid⟩ := ih h
      rcases meet_eq_ok hnext with ⟨check, rfl, rfl⟩ | ⟨binding, rfl, hname, -, rfl⟩
      · exact ⟨by simpa [Demand.check?] using hchecks, hentries, hvalid⟩
      · refine ⟨hchecks, ?_, ?_⟩
        · rw [hentries, entries_setBinding]
          rfl
        · intro other hother
          rcases List.mem_cons.mp hother with rfl | hother
          · exact hname
          · exact hvalid other hother
    · cases h

end Lowering

/-- The checks and bindings of a pattern that could be lowered. -/
theorem Pattern.of_lower {shadowing : Bool} {trail : Trail} {subject : σ} {p : Pattern}
    {lowering : Lowering σ} (h : p.lower shadowing trail subject = .ok lowering)
    (f : Binding σ → α) :
    lowering.checks = (p.demands (.subject subject) trail).filterMap Demand.check? ∧
      Lowering.entries f lowering.bindings =
        Assoc.insertAll [] (Lowering.entries f
          ((p.demands (.subject subject) trail).filterMap Demand.binding?)) ∧
      ∀ binding ∈ (p.demands (.subject subject) trail).filterMap Demand.binding?,
        Name.isValid binding.name = true := by
  rw [lower, Lowering.extend] at h
  split at h
  · rename_i result hresult
    cases h
    simpa [Lowering.entries] using Lowering.of_meetAll hresult f
  · cases h

theorem Pattern.nodup_names_of_lower {shadowing : Bool} {trail : Trail} {subject : σ} {p : Pattern}
    {lowering : Lowering σ} (h : p.lower shadowing trail subject = .ok lowering) :
    (lowering.bindings.map (·.name)).Nodup := by
  rw [← Lowering.keys_entries (fun binding => binding.ref), (p.of_lower h _).2.1]
  exact Assoc.nodup_keys_insertAll List.nodup_nil

end CaseScript
