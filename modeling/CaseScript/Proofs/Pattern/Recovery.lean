import CaseScript.Proofs.Pattern.Matching
import CaseScript.Proofs.Pattern.Occurrences

/-!
# Recovery of patterns

Where no name may shadow another, a pattern can be told from its checks and from the names and
places of its bindings. All that a pattern asks for lies inside the place where it is matched. So
what is asked of one item is told apart from what is asked of the others and from what comes after
the pattern, although checks and bindings are kept in two lists.
-/

namespace CaseScript

variable {σ : Type}

/-! ## Places inside each other -/

namespace Ref

/-- The steps from the subject to a place: to an item, or (marked) to the items from one on. -/
def path : Ref σ → List (Bool × Nat)
  | subject _ => []
  | item list index => list.path ++ [(false, index)]
  | rest list start => list.path ++ [(true, start)]

def Encloses (outer inner : Ref σ) : Prop := outer.path <+: inner.path

variable {ref inner : Ref σ}

theorem encloses_self (ref : Ref σ) : ref.Encloses ref := List.prefix_rfl

theorem encloses_rest (ref : Ref σ) (start : Nat) : ref.Encloses (.rest ref start) :=
  List.prefix_append ref.path _

theorem Encloses.of_item {index : Nat} (h : (item ref index).Encloses inner) :
    ref.Encloses inner :=
  (List.prefix_append ref.path _).trans h

/-- Steps from the same place that both lead to an inner place are the same step. -/
theorem step_unique {path inner : List (Bool × Nat)} {step step' : Bool × Nat}
    (h : path ++ [step] <+: inner) (h' : path ++ [step'] <+: inner) : step = step' := by
  have hprefix := List.prefix_of_prefix_length_le h h' (by simp)
  have heq := hprefix.eq_of_length (by simp)
  simpa using heq

theorem Encloses.index_eq {index index' : Nat} (h : (item ref index).Encloses inner)
    (h' : (item ref index').Encloses inner) : index = index' :=
  congrArg Prod.snd (step_unique h h')

theorem not_encloses_rest (index start : Nat) : ¬ (item ref index).Encloses (.rest ref start) := by
  intro h
  have hstep := step_unique h List.prefix_rfl
  cases hstep

end Ref

def Check.ref : Check σ → Ref σ
  | length ref _ _ | equals ref _ => ref

/-! ## Demands -/

namespace Demand

/-- The place that a demand is about. -/
def ref : Demand σ → Ref σ
  | check c => c.ref
  | bind b => b.ref

def checks (demands : List (Demand σ)) : List (Check σ) := demands.filterMap check?

/-- The names that some demands bind, with the places that they stand for. -/
def places (demands : List (Demand σ)) : List (Text × Ref σ) :=
  Lowering.entries (·.ref) (demands.filterMap binding?)

/-- Do two series of demands make the same checks and bind the same names to the same places? -/
def Alike (first second : List (Demand σ)) : Prop :=
  checks first = checks second ∧ places first = places second

/-- Are all demands about places outside of this one? -/
def Outside (ref : Ref σ) (demands : List (Demand σ)) : Prop :=
  ∀ demand ∈ demands, ¬ ref.Encloses demand.ref

variable {ref : Ref σ} {first second : List (Demand σ)}

@[simp] theorem checks_check (c : Check σ) (demands : List (Demand σ)) :
    checks (.check c :: demands) = c :: checks demands := rfl

@[simp] theorem checks_bind (b : Binding σ) (demands : List (Demand σ)) :
    checks (.bind b :: demands) = checks demands := rfl

@[simp] theorem places_check (c : Check σ) (demands : List (Demand σ)) :
    places (.check c :: demands) = places demands := rfl

@[simp] theorem places_bind (b : Binding σ) (demands : List (Demand σ)) :
    places (.bind b :: demands) = (b.name, b.ref) :: places demands := rfl

theorem Alike.symm (h : Alike first second) : Alike second first := ⟨h.1.symm, h.2.symm⟩

theorem alike_check {c c' : Check σ} :
    Alike (.check c :: first) (.check c' :: second) ↔ c = c' ∧ Alike first second := by
  simp only [Alike, checks_check, places_check, List.cons.injEq]
  exact and_assoc

theorem alike_bind {b b' : Binding σ} :
    Alike (.bind b :: first) (.bind b' :: second) ↔
      (b.name = b'.name ∧ b.ref = b'.ref) ∧ Alike first second := by
  simp only [Alike, checks_bind, places_bind, List.cons.injEq, Prod.mk.injEq]
  exact and_left_comm

theorem mem_of_mem_checks {c : Check σ} (h : c ∈ checks first) : .check c ∈ first := by
  obtain ⟨demand, hmem, hcheck⟩ := List.mem_filterMap.mp h
  cases demand with
  | check d =>
    cases hcheck
    exact hmem
  | bind b => cases hcheck

theorem exists_of_mem_places {name : Text} {place : Ref σ} (h : (name, place) ∈ places first) :
    ∃ b : Binding σ, .bind b ∈ first ∧ b.ref = place := by
  obtain ⟨b, hb, heq⟩ := List.mem_map.mp h
  obtain ⟨demand, hmem, hbinding⟩ := List.mem_filterMap.mp hb
  cases demand with
  | check c => cases hbinding
  | bind d =>
    cases hbinding
    exact ⟨b, hmem, congrArg Prod.snd heq⟩

theorem Outside.notMem_checks (h : Outside ref first) {c : Check σ} (hc : c.ref = ref) :
    c ∉ checks first := by
  intro hmem
  apply h _ (mem_of_mem_checks hmem)
  change ref.Encloses c.ref
  rw [hc]
  exact ref.encloses_self

theorem Outside.notMem_places (h : Outside ref first) (name : Text) :
    (name, ref) ∉ places first := by
  intro hmem
  obtain ⟨b, hb, href⟩ := exists_of_mem_places hmem
  apply h _ hb
  change ref.Encloses b.ref
  rw [href]
  exact ref.encloses_self

theorem Outside.item (h : Outside ref first) (index : Nat) : Outside (.item ref index) first :=
  fun demand hmem hencloses => h demand hmem hencloses.of_item

theorem Outside.append (h : Outside ref first) (h' : Outside ref second) :
    Outside ref (first ++ second) := by
  intro demand hmem
  rcases List.mem_append.mp hmem with hmem | hmem
  · exact h demand hmem
  · exact h' demand hmem

end Demand

namespace Pattern

open Demand

mutual

/-- All that a pattern asks for lies inside the place where it is matched. -/
theorem encloses_demands (ref : Ref σ) (trail : Trail) (p : Pattern) :
    ∀ demand ∈ p.demands ref trail, ref.Encloses demand.ref := by
  intro demand h
  cases p with
  | literal value =>
    obtain rfl := List.mem_singleton.mp h
    exact ref.encloses_self
  | var name =>
    obtain rfl := List.mem_singleton.mp h
    exact ref.encloses_self
  | wildcard => cases h
  | list items =>
    rcases List.mem_cons.mp h with rfl | h
    · exact ref.encloses_self
    · obtain ⟨i, -, hencloses⟩ := encloses_itemDemands ref (trail.field "items") 0 items demand h
      exact hencloses.of_item
  | listTail items tail =>
    rcases List.mem_cons.mp h with rfl | h
    · exact ref.encloses_self
    · rcases List.mem_append.mp h with h | h
      · obtain ⟨i, -, hencloses⟩ := encloses_itemDemands ref (trail.field "items") 0 items demand h
        exact hencloses.of_item
      · obtain rfl := List.mem_singleton.mp h
        exact ref.encloses_rest items.length

theorem encloses_itemDemands (ref : Ref σ) (trail : Trail) (index : Nat) (items : List Pattern) :
    ∀ demand ∈ itemDemands ref trail index items,
      ∃ i, index ≤ i ∧ (Ref.item ref i).Encloses demand.ref := by
  intro demand h
  cases items with
  | nil => cases h
  | cons p rest =>
    rw [itemDemands, List.mem_append] at h
    rcases h with h | h
    · exact ⟨index, Nat.le_refl _, encloses_demands (.item ref index) (trail.item index) p demand h⟩
    · obtain ⟨i, hi, hencloses⟩ := encloses_itemDemands ref trail (index + 1) rest demand h
      exact ⟨i, by omega, hencloses⟩

end

/-- What is asked of the items behind an item lies outside of that item. -/
theorem outside_itemDemands (ref : Ref σ) (trail : Trail) (index : Nat) (items : List Pattern) :
    Outside (.item ref index) (itemDemands ref trail (index + 1) items) := by
  intro demand h hitem
  obtain ⟨i, hi, hencloses⟩ := encloses_itemDemands ref trail (index + 1) items demand h
  have hindex := hitem.index_eq hencloses
  omega

theorem outside_tail (ref : Ref σ) (index start : Nat) (tail : Text) (trail : Trail) :
    Outside (.item ref index) [.bind ⟨tail, .rest ref start, trail⟩] := by
  intro demand h
  obtain rfl := List.mem_singleton.mp h
  exact Ref.not_encloses_rest index start

/-- A pattern that does not match everything first makes a check at its own place. -/
theorem exists_check {p : Pattern} (h : p.catchesAll = false) (ref : Ref σ) (trail : Trail) :
    ∃ c rest, p.demands ref trail = .check c :: rest ∧ c.ref = ref := by
  cases p with
  | literal value => exact ⟨_, _, rfl, rfl⟩
  | var name => cases h
  | wildcard => cases h
  | list items => exact ⟨_, _, rfl, rfl⟩
  | listTail items tail => exact ⟨_, _, rfl, rfl⟩

section Alike

variable {ref : Ref σ} {trail trail' : Trail} {p q : Pattern} {after after' : List (Demand σ)}

theorem catchesAll_of_alike (hafter' : Outside ref after')
    (h : Alike (p.demands ref trail ++ after) (q.demands ref trail' ++ after'))
    (hq : q.catchesAll = true) : p.catchesAll = true := by
  cases hp : p.catchesAll with
  | true => rfl
  | false =>
    obtain ⟨c, rest, hdemands, hc⟩ := exists_check hp ref trail
    rw [hdemands] at h
    have hchecks : c :: checks (rest ++ after) = checks after' := by
      cases q with
      | var _ | wildcard => exact h.1
      | _ => cases hq
    have hmem : c ∈ checks after' := hchecks ▸ List.mem_cons_self
    exact absurd hmem (hafter'.notMem_checks hc)

theorem catchesAll_eq_of_alike (hafter : Outside ref after) (hafter' : Outside ref after')
    (h : Alike (p.demands ref trail ++ after) (q.demands ref trail' ++ after')) :
    p.catchesAll = q.catchesAll := by
  rw [Bool.eq_iff_iff]
  exact ⟨catchesAll_of_alike hafter h.symm, catchesAll_of_alike hafter' h⟩

end Alike

mutual

/-- Patterns that are asked for alike, at one place and before other demands that are about other
places, are the same pattern, and then the other demands are alike as well. -/
theorem eq_of_alike {ref : Ref σ} {trail trail' : Trail} {p q : Pattern}
    {after after' : List (Demand σ)} (hafter : Outside ref after) (hafter' : Outside ref after')
    (h : Alike (p.demands ref trail ++ after) (q.demands ref trail' ++ after')) :
    p = q ∧ Alike after after' := by
  have hkind := catchesAll_eq_of_alike hafter hafter' h
  cases p with
  | literal value =>
    cases q with
    | literal other =>
      obtain ⟨hcheck, hrest⟩ := alike_check.mp h
      cases hcheck
      exact ⟨rfl, hrest⟩
    | var _ | wildcard => cases hkind
    | list _ | listTail _ _ => cases (alike_check.mp h).1
  | var name =>
    cases q with
    | var other =>
      obtain ⟨⟨hname, -⟩, hrest⟩ := alike_bind.mp h
      cases hname
      exact ⟨rfl, hrest⟩
    | wildcard =>
      have hplaces : (name, ref) :: places after = places after' := h.2
      have hmem : (name, ref) ∈ places after' := hplaces ▸ List.mem_cons_self
      exact absurd hmem (hafter'.notMem_places name)
    | literal _ | list _ | listTail _ _ => cases hkind
  | wildcard =>
    cases q with
    | var other =>
      have hplaces : places after = (other, ref) :: places after' := h.2
      have hmem : (other, ref) ∈ places after := hplaces ▸ List.mem_cons_self
      exact absurd hmem (hafter.notMem_places other)
    | wildcard => exact ⟨rfl, h⟩
    | literal _ | list _ | listTail _ _ => cases hkind
  | list items =>
    cases q with
    | list others =>
      obtain ⟨hcheck, hrest⟩ := alike_check.mp h
      have hlength : items.length = others.length := by
        injection hcheck
      obtain ⟨rfl, hafters⟩ := eq_of_itemsAlike hlength hafter.item hafter'.item hrest
      exact ⟨rfl, hafters⟩
    | var _ | wildcard => cases hkind
    | literal _ | listTail _ _ => exact absurd (alike_check.mp h).1 (by simp)
  | listTail items tail =>
    cases q with
    | listTail others tail' =>
      obtain ⟨hcheck, hrest⟩ := alike_check.mp h
      have hlength : items.length = others.length := by
        injection hcheck
      -- The binding of the tail comes after the items, so it counts as theirs to leave over.
      rw [List.append_eq, List.append_eq, List.append_assoc, List.append_assoc] at hrest
      obtain ⟨rfl, htails⟩ := eq_of_itemsAlike hlength
        (fun index => (outside_tail ref index _ _ _).append (hafter.item index))
        (fun index => (outside_tail ref index _ _ _).append (hafter'.item index)) hrest
      obtain ⟨⟨htail, -⟩, hafters⟩ := alike_bind.mp htails
      cases htail
      exact ⟨rfl, hafters⟩
    | var _ | wildcard => cases hkind
    | literal _ | list _ => exact absurd (alike_check.mp h).1 (by simp)

theorem eq_of_itemsAlike {ref : Ref σ} {trail trail' : Trail} {index : Nat}
    {items others : List Pattern} {after after' : List (Demand σ)}
    (hlength : items.length = others.length) (hafter : ∀ i, Outside (.item ref i) after)
    (hafter' : ∀ i, Outside (.item ref i) after')
    (h : Alike (itemDemands ref trail index items ++ after)
      (itemDemands ref trail' index others ++ after')) :
    items = others ∧ Alike after after' := by
  cases items with
  | nil =>
    cases others with
    | nil => exact ⟨rfl, h⟩
    | cons q others => cases hlength
  | cons p items =>
    cases others with
    | nil => cases hlength
    | cons q others =>
      rw [itemDemands, itemDemands, List.append_assoc, List.append_assoc] at h
      obtain ⟨rfl, hrest⟩ := eq_of_alike
        ((outside_itemDemands ref trail index items).append (hafter index))
        ((outside_itemDemands ref trail' index others).append (hafter' index)) h
      obtain ⟨rfl, hafters⟩ := eq_of_itemsAlike (Nat.succ.inj hlength) hafter hafter' hrest
      exact ⟨rfl, hafters⟩

end

/-! ## Lowered patterns -/

/-- Where no name may shadow another, the bindings of a lowered pattern are all that it demands. -/
theorem bindings_lower {trail : Trail} {subject : σ} {p : Pattern} {lowering : Lowering σ}
    (h : p.lower false trail subject = .ok lowering) :
    lowering.bindings = (p.demands (.subject subject) trail).filterMap Demand.binding? := by
  rw [lower, Lowering.extend] at h
  split at h
  · rename_i result hresult
    cases h
    exact Lowering.bindings_meetAll hresult
  · cases h

/-- Where no name may shadow another, a pattern can be told from its checks and from what its names
are bound to. -/
theorem eq_of_lower {trail trail' : Trail} {subject : σ} {p q : Pattern}
    {lowering lowering' : Lowering σ} (hp : p.lower false trail subject = .ok lowering)
    (hq : q.lower false trail' subject = .ok lowering')
    (hchecks : lowering.checks = lowering'.checks)
    (hplaces : Lowering.entries (·.ref) lowering.bindings =
      Lowering.entries (·.ref) lowering'.bindings) : p = q := by
  rw [(p.of_lower hp (·.ref)).1, (q.of_lower hq (·.ref)).1] at hchecks
  rw [bindings_lower hp, bindings_lower hq] at hplaces
  have hnone : Outside (.subject subject) ([] : List (Demand σ)) :=
    fun demand hmem => absurd hmem List.not_mem_nil
  have hall : Alike (p.demands (.subject subject) trail ++ [])
      (q.demands (.subject subject) trail' ++ []) := by
    rw [List.append_nil, List.append_nil]
    exact ⟨hchecks, hplaces⟩
  exact (eq_of_alike hnone hnone hall).1

end Pattern
end CaseScript
