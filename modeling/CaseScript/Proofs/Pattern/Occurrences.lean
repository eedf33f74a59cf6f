import CaseScript.Proofs.Diagnostic.Trail
import CaseScript.Proofs.Pattern.Lowering

/-!
# Occurrences of names in patterns

The places where a pattern names something, in the order of the walk: all of them are different. A
lowering fails at a name that cannot be declared or, where no name may shadow another, at the second
of two occurrences of one name.
-/

namespace CaseScript

variable {σ : Type}

namespace Pattern

mutual

/-- The names in a pattern at `trail` with the places where they stand. -/
def occurrences (trail : Trail) : Pattern → List (Text × Trail)
  | literal _ => []
  | var name => [(name, trail)]
  | wildcard => []
  | list items => itemOccurrences (trail.field "items") 0 items
  | listTail items tail =>
    itemOccurrences (trail.field "items") 0 items ++ [(tail, trail.field "tail")]

/-- The names in the items from `index` on. -/
def itemOccurrences (trail : Trail) (index : Nat) : List Pattern → List (Text × Trail)
  | [] => []
  | p :: rest => p.occurrences (trail.item index) ++ itemOccurrences trail (index + 1) rest

end

/-- The name of a binding and the place where the pattern binds it. -/
def site (binding : Binding σ) : Text × Trail := (binding.name, binding.trail)

mutual

theorem sites_demands (ref : Ref σ) (trail : Trail) (p : Pattern) :
    ((p.demands ref trail).filterMap Demand.binding?).map site = p.occurrences trail := by
  cases p with
  | literal value => rfl
  | var name => rfl
  | wildcard => rfl
  | list items => exact sites_itemDemands ref (trail.field "items") 0 items
  | listTail items tail =>
    have hitems := sites_itemDemands ref (trail.field "items") 0 items
    simp only [demands, occurrences, List.filterMap_cons, List.filterMap_append, List.filterMap_nil,
      Demand.binding?, List.map_append, hitems]
    rfl

theorem sites_itemDemands (ref : Ref σ) (trail : Trail) (index : Nat) (items : List Pattern) :
    ((itemDemands ref trail index items).filterMap Demand.binding?).map site =
      itemOccurrences trail index items := by
  cases items with
  | nil => rfl
  | cons p rest =>
    rw [itemDemands, itemOccurrences, List.filterMap_append, List.map_append,
      sites_demands (.item ref index) (trail.item index) p, sites_itemDemands ref trail _ rest]

end

/-! ## All places are different -/

mutual

theorem leads_of_mem_occurrences {trail : Trail} {p : Pattern} :
    ∀ site ∈ p.occurrences trail, trail.Leads site.2 := by
  intro site h
  cases p with
  | literal value => cases h
  | var name =>
    rw [occurrences, List.mem_singleton] at h
    subst h
    exact .here
  | wildcard => cases h
  | list items =>
    rw [occurrences] at h
    obtain ⟨index, -, hleads⟩ := leads_of_mem_itemOccurrences site h
    exact hleads.of_item.of_field
  | listTail items tail =>
    rw [occurrences, List.mem_append, List.mem_singleton] at h
    rcases h with h | rfl
    · obtain ⟨index, -, hleads⟩ := leads_of_mem_itemOccurrences site h
      exact hleads.of_item.of_field
    · exact .field "tail" .here

theorem leads_of_mem_itemOccurrences {trail : Trail} {index : Nat} {items : List Pattern} :
    ∀ site ∈ itemOccurrences trail index items, ∃ i, index ≤ i ∧ (trail.item i).Leads site.2 := by
  intro site h
  cases items with
  | nil => cases h
  | cons p rest =>
    rw [itemOccurrences, List.mem_append] at h
    rcases h with h | h
    · exact ⟨index, Nat.le_refl _, leads_of_mem_occurrences site h⟩
    · obtain ⟨i, hi, hleads⟩ := leads_of_mem_itemOccurrences site h
      exact ⟨i, by omega, hleads⟩

end

mutual

/-- No place in a pattern names two things. -/
theorem nodup_places (trail : Trail) (p : Pattern) :
    ((p.occurrences trail).map Prod.snd).Nodup := by
  cases p with
  | literal value => exact List.nodup_nil
  | var name => exact List.pairwise_singleton _ trail
  | wildcard => exact List.nodup_nil
  | list items => exact nodup_itemPlaces (trail.field "items") 0 items
  | listTail items tail =>
    rw [occurrences, List.map_append, List.nodup_append]
    refine ⟨nodup_itemPlaces (trail.field "items") 0 items, List.pairwise_singleton _ _, ?_⟩
    intro place hplace other hother
    obtain ⟨site, hsite, rfl⟩ := List.mem_map.mp hplace
    obtain rfl := List.mem_singleton.mp hother
    obtain ⟨i, -, hleads⟩ := leads_of_mem_itemOccurrences site hsite
    intro heq
    rw [heq] at hleads
    exact Trail.not_leads_of_field (by decide) hleads.of_item .here

theorem nodup_itemPlaces (trail : Trail) (index : Nat) (items : List Pattern) :
    ((itemOccurrences trail index items).map Prod.snd).Nodup := by
  cases items with
  | nil => exact List.nodup_nil
  | cons p rest =>
    rw [itemOccurrences, List.map_append, List.nodup_append]
    refine ⟨nodup_places (trail.item index) p, nodup_itemPlaces trail (index + 1) rest, ?_⟩
    intro place hplace other hother
    obtain ⟨site, hsite, rfl⟩ := List.mem_map.mp hplace
    obtain ⟨later, hlater, rfl⟩ := List.mem_map.mp hother
    have hleads := leads_of_mem_occurrences site hsite
    obtain ⟨i, hi, hleads'⟩ := leads_of_mem_itemOccurrences later hlater
    intro heq
    rw [← heq] at hleads'
    exact Trail.not_leads_of_item (by omega) hleads hleads'

end

end Pattern

/-! ## Demands that cannot be met -/

namespace Lowering

/-- A binding of a name that is bound nowhere goes to the end. -/
theorem setBinding_of_fresh {binding : Binding σ} {bindings : List (Binding σ)}
    (h : ∀ old ∈ bindings, old.name ≠ binding.name) :
    setBinding binding bindings = bindings ++ [binding] := by
  induction bindings with
  | nil => rfl
  | cons old rest ih =>
    rw [setBinding, if_neg (h old List.mem_cons_self), ih fun other hother =>
      h other (List.mem_cons_of_mem old hother)]
    rfl

/-- Where no name may shadow another, what a demand binds is added after all other bindings. -/
theorem bindings_meet {lowering result : Lowering σ} {demand : Demand σ}
    (h : lowering.meet false demand = .ok result) :
    result.bindings = lowering.bindings ++ demand.binding?.toList := by
  rcases meet_eq_ok h with ⟨check, rfl, rfl⟩ | ⟨binding, rfl, -, hfresh, rfl⟩
  · simp [Demand.binding?]
  · have hnew : ∀ old ∈ lowering.bindings, old.name ≠ binding.name := by
      intro old hold heq
      exact List.find?_eq_none.mp (hfresh rfl) old hold (decide_eq_true heq)
    exact setBinding_of_fresh hnew

theorem bindings_meetAll {lowering result : Lowering σ} {demands : List (Demand σ)}
    (h : lowering.meetAll false demands = (result, none)) :
    result.bindings = lowering.bindings ++ demands.filterMap Demand.binding? := by
  induction demands generalizing lowering with
  | nil =>
    cases h
    simp
  | cons demand rest ih =>
    rw [meetAll] at h
    split at h
    · rename_i next hnext
      rw [ih h, bindings_meet hnext, List.append_assoc]
      cases demand <;> rfl
    · cases h

theorem meetAll_eq_error {shadowing : Bool} {lowering result : Lowering σ}
    {demands : List (Demand σ)} {fault : NamingFault}
    (h : lowering.meetAll shadowing demands = (result, some fault)) :
    (∃ binding ∈ demands.filterMap Demand.binding?, Name.isValid binding.name = false ∧
        fault = .invalidName binding.name binding.trail) ∨
      shadowing = false ∧ ∃ first again : Binding σ, first.name = again.name ∧
        [first, again].Sublist (lowering.bindings ++ demands.filterMap Demand.binding?) ∧
          fault = .boundTwice again.name first.trail again.trail := by
  induction demands generalizing lowering with
  | nil => cases h
  | cons demand rest ih =>
    rw [meetAll] at h
    split at h
    · rename_i next hnext
      rcases ih h with ⟨binding, hmem, hfault⟩ | ⟨rfl, first, again, hname, hsublist, hfault⟩
      · refine .inl ⟨binding, ?_, hfault⟩
        cases demand with
        | check check => exact hmem
        | bind other => exact List.mem_cons_of_mem other hmem
      · refine .inr ⟨rfl, first, again, hname, ?_, hfault⟩
        rw [bindings_meet hnext, List.append_assoc] at hsublist
        cases demand <;> exact hsublist
    · rename_i hmeet
      cases h
      obtain ⟨binding, rfl, hbind⟩ := meet_eq_error hmeet
      rcases bind_eq_error.mp hbind with hinvalid | ⟨-, rfl, first, hfound, hfault⟩
      · exact .inl ⟨binding, List.mem_cons_self, hinvalid⟩
      · have hname := List.find?_some hfound
        refine .inr ⟨rfl, first, binding, of_decide_eq_true hname, ?_, hfault⟩
        have hfirst := List.singleton_sublist.mpr (List.mem_of_find?_eq_some hfound)
        exact hfirst.append (List.singleton_sublist.mpr List.mem_cons_self)

end Lowering

/-- A pattern cannot be lowered because of a name in it that is not valid, or because one name
occurs in it twice. -/
theorem Pattern.lower_eq_error {shadowing : Bool} {trail : Trail} {subject : σ} {p : Pattern}
    {fault : NamingFault} (h : p.lower shadowing trail subject = .error fault) :
    (∃ name place, (name, place) ∈ p.occurrences trail ∧ Name.isValid name = false ∧
        fault = .invalidName name place) ∨
      shadowing = false ∧ ∃ name first again,
        [(name, first), (name, again)].Sublist (p.occurrences trail) ∧
          fault = .boundTwice name first again := by
  rw [lower, Lowering.extend] at h
  split at h
  · cases h
  · rename_i result stopped hresult
    cases h
    rw [← sites_demands (.subject subject) trail p]
    rcases Lowering.meetAll_eq_error hresult with
      ⟨binding, hmem, hinvalid, hfault⟩ | ⟨rfl, first, again, hname, hsublist, hfault⟩
    · exact .inl ⟨binding.name, binding.trail, List.mem_map_of_mem hmem, hinvalid, hfault⟩
    · refine .inr ⟨rfl, again.name, first.trail, again.trail, ?_, hfault⟩
      have hsites := hsublist.map site
      rw [List.map_cons, List.map_cons, site, site, hname] at hsites
      exact hsites

end CaseScript
