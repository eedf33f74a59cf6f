import CaseScript.Proofs.Pattern.Lowering

/-!
# Renaming the subject of a pattern

A pattern is lowered in the same way whatever its subject is called: the name of the subject ends up
at the root of every reference, and nothing else depends on it.
-/

namespace CaseScript

variable {σ τ : Type}

def Ref.map (f : σ → τ) : Ref σ → Ref τ
  | .subject s => .subject (f s)
  | .item list index => .item (list.map f) index
  | .rest list start => .rest (list.map f) start

def Check.map (f : σ → τ) : Check σ → Check τ
  | .length ref count atLeast => .length (ref.map f) count atLeast
  | .equals ref literal => .equals (ref.map f) literal

def Binding.map (f : σ → τ) (binding : Binding σ) : Binding τ :=
  ⟨binding.name, binding.ref.map f, binding.trail⟩

def Demand.map (f : σ → τ) : Demand σ → Demand τ
  | .check c => .check (c.map f)
  | .bind b => .bind (b.map f)

def Lowering.map (f : σ → τ) (lowering : Lowering σ) : Lowering τ :=
  ⟨lowering.checks.map (Check.map f), lowering.bindings.map (Binding.map f)⟩

namespace Pattern

mutual

theorem demands_map (f : σ → τ) (ref : Ref σ) (trail : Trail) (p : Pattern) :
    p.demands (ref.map f) trail = (p.demands ref trail).map (Demand.map f) := by
  cases p with
  | literal value => rfl
  | var name => rfl
  | wildcard => rfl
  | list items =>
    rw [demands, demands, List.map_cons, itemDemands_map f ref (trail.field "items") 0 items]
    rfl
  | listTail items tail =>
    rw [demands, demands, List.map_cons, List.map_append,
      itemDemands_map f ref (trail.field "items") 0 items]
    rfl

theorem itemDemands_map (f : σ → τ) (ref : Ref σ) (trail : Trail) (index : Nat)
    (items : List Pattern) :
    itemDemands (ref.map f) trail index items =
      (itemDemands ref trail index items).map (Demand.map f) := by
  cases items with
  | nil => rfl
  | cons p rest =>
    rw [itemDemands, itemDemands, List.map_append,
      ← demands_map f (.item ref index) (trail.item index) p,
      itemDemands_map f ref trail (index + 1) rest]
    rfl

end

end Pattern

namespace Lowering

variable {f : σ → τ}

theorem binding?_map (lowering : Lowering σ) (name : Text) :
    (lowering.map f).binding? name = (lowering.binding? name).map (Binding.map f) := by
  unfold binding? Lowering.map
  rw [List.find?_map]
  rfl

theorem setBinding_map (binding : Binding σ) (bindings : List (Binding σ)) :
    setBinding (binding.map f) (bindings.map (Binding.map f)) =
      (setBinding binding bindings).map (Binding.map f) := by
  induction bindings with
  | nil => rfl
  | cons old rest ih =>
    rw [List.map_cons, setBinding, setBinding, ih]
    by_cases h : old.name = binding.name
    · simp [Binding.map, h]
    · simp [Binding.map, h]

theorem meet_map (shadowing : Bool) (lowering : Lowering σ) (demand : Demand σ) :
    (lowering.map f).meet shadowing (demand.map f) =
      (lowering.meet shadowing demand).map (Lowering.map f) := by
  cases demand with
  | check check => simp [meet, Demand.map, Lowering.map, Except.map]
  | bind binding =>
    change (lowering.map f).bind shadowing (binding.map f) =
      (lowering.bind shadowing binding).map (Lowering.map f)
    have hfound : (lowering.map f).binding? (binding.map f).name =
        (lowering.binding? binding.name).map (Binding.map f) := binding?_map lowering binding.name
    have hset : setBinding (binding.map f) (lowering.map f).bindings =
        (setBinding binding lowering.bindings).map (Binding.map f) :=
      setBinding_map binding lowering.bindings
    unfold Lowering.bind
    rw [hfound, hset]
    by_cases hvalid : Name.isValid binding.name = true
    · cases lowering.binding? binding.name with
      | none => simp [Binding.map, hvalid, Except.map, Lowering.map]
      | some first =>
        cases shadowing <;> simp [Binding.map, hvalid, Except.map, Lowering.map]
    · simp [Binding.map, hvalid, Except.map]

theorem meetAll_map (shadowing : Bool) (lowering : Lowering σ) (demands : List (Demand σ)) :
    (lowering.map f).meetAll shadowing (demands.map (Demand.map f)) =
      Prod.map (Lowering.map f) id (lowering.meetAll shadowing demands) := by
  induction demands generalizing lowering with
  | nil => rfl
  | cons demand rest ih =>
    rw [List.map_cons, meetAll, meetAll, meet_map]
    cases lowering.meet shadowing demand with
    | ok next => exact ih next
    | error fault => rfl

end Lowering

/-- Only the subject's name in the references depends on the subject's name. -/
theorem Pattern.lower_map (f : σ → τ) (shadowing : Bool) (trail : Trail) (subject : σ)
    (p : Pattern) :
    p.lower shadowing trail (f subject) =
      (p.lower shadowing trail subject).map (Lowering.map f) := by
  have hextend : Lowering.extend shadowing trail {} (f subject) p =
      Prod.map (Lowering.map f) id (Lowering.extend shadowing trail {} subject p) := by
    have hdemands := p.demands_map f (.subject subject) trail
    rw [Ref.map] at hdemands
    rw [Lowering.extend, hdemands]
    exact Lowering.meetAll_map shadowing {} _
  rw [lower, lower, hextend]
  obtain ⟨lowering, fault⟩ := Lowering.extend shadowing trail {} subject p
  cases fault <;> rfl

/-- A lowering is one without any subject's name, with the name put in. -/
theorem Pattern.exists_shape {shadowing : Bool} {trail : Trail} {subject : σ} {p : Pattern}
    {lowering : Lowering σ} (h : p.lower shadowing trail subject = .ok lowering) :
    ∃ shape : Lowering Unit, p.lower shadowing trail () = .ok shape ∧
      lowering = shape.map fun _ => subject := by
  have hmap := p.lower_map (fun _ : Unit => subject) shadowing trail ()
  rw [h] at hmap
  cases hshape : p.lower shadowing trail () with
  | ok shape =>
    rw [hshape] at hmap
    exact ⟨shape, rfl, Except.ok.inj hmap⟩
  | error fault =>
    rw [hshape] at hmap
    cases hmap

end CaseScript
