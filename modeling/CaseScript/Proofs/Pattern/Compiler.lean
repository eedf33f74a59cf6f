import CaseScript.Proofs.Pattern.Occurrences

/-!
# Compilers of patterns

A compiler keeps what it has found so far in three tables, one of them for the checks, one for what
the names stand for and one for where they are bound. It walks a pattern and changes the tables as
it goes, so a call that is given up leaves behind what was found before. A lowering holds the same
in one list of bindings; the two come to the same end.
-/

namespace CaseScript

structure Compiler (σ : Type) where
  checks : List (Check σ) := []
  refs : List (Text × Ref σ) := []
  trails : List (Text × Trail) := []

namespace Compiler

variable {σ : Type}

/-- Why a call is given up. -/
inductive Stop where
  | fault (fault : NamingFault)
  /-- A name is bound, but where it is bound is not on record. -/
  | unplaced (name : Text)

/-- A part of a call. The compiler is changed even if the call is given up. -/
abbrev Walk (σ : Type) := Compiler σ → Compiler σ × Option Stop

def done : Walk σ := fun compiler => (compiler, none)

/-- The second part is left out if the first one is given up. -/
def Walk.andThen (first second : Walk σ) : Walk σ := fun compiler =>
  match first compiler with
  | (next, none) => second next
  | (last, some stop) => (last, some stop)

def check (check : Check σ) : Walk σ := fun compiler =>
  ({ compiler with checks := compiler.checks ++ [check] }, none)

/-- Binds a name. That it is bound already is seen in one table, and where in the other. -/
def bind (shadowing : Bool) (name : Text) (ref : Ref σ) (trail : Trail) : Walk σ := fun compiler =>
  if Name.isValid name then
    if (compiler.refs.lookup name).isSome && !shadowing then
      match compiler.trails.lookup name with
      | some first => (compiler, some (.fault (.boundTwice name first trail)))
      | none => (compiler, some (.unplaced name))
    else
      ({ compiler with
          refs := Assoc.insert name ref compiler.refs
          trails := Assoc.insert name trail compiler.trails }, none)
  else (compiler, some (.fault (.invalidName name trail)))

mutual

/-- Walks a pattern depth first and from left to right. -/
def walk (shadowing : Bool) (ref : Ref σ) (trail : Trail) : Pattern → Walk σ
  | .literal value => check (.equals ref value)
  | .var name => bind shadowing name ref trail
  | .wildcard => done
  | .list items =>
    (check (.length ref items.length false)).andThen
      (walkItems shadowing ref (trail.field "items") 0 items)
  | .listTail items tail =>
    (check (.length ref items.length true)).andThen
      ((walkItems shadowing ref (trail.field "items") 0 items).andThen
        (bind shadowing tail (.rest ref items.length) (trail.field "tail")))

def walkItems (shadowing : Bool) (ref : Ref σ) (trail : Trail) (index : Nat) :
    List Pattern → Walk σ
  | [] => done
  | p :: rest =>
    (walk shadowing (.item ref index) (trail.item index) p).andThen
      (walkItems shadowing ref trail (index + 1) rest)

end

/-- A pattern to compile, and the subject to look at. -/
structure Call (σ : Type) where
  pattern : Pattern
  subject : σ

/-- What a call returns, which is a copy of what the compiler holds. -/
structure Compiled (σ : Type) where
  checks : List (Check σ)
  refs : List (Text × Ref σ)

/-- Compiles a pattern into what the compiler holds already. All patterns are said to stand at
`root`. -/
def compile (shadowing : Bool) (root : Trail) (call : Call σ) (compiler : Compiler σ) :
    Compiler σ × Except Stop (Compiled σ) :=
  match walk shadowing (.subject call.subject) root call.pattern compiler with
  | (compiler, none) => (compiler, .ok ⟨compiler.checks, compiler.refs⟩)
  | (compiler, some stop) => (compiler, .error stop)

/-! ## Walks as demands -/

def step (shadowing : Bool) : Demand σ → Walk σ
  | .check c => check c
  | .bind binding => bind shadowing binding.name binding.ref binding.trail

def steps (shadowing : Bool) : List (Demand σ) → Walk σ
  | [] => done
  | demand :: rest => (step shadowing demand).andThen (steps shadowing rest)

theorem andThen_assoc (first second third : Walk σ) :
    (first.andThen second).andThen third = first.andThen (second.andThen third) := by
  funext compiler
  unfold Walk.andThen
  obtain ⟨next, _ | stop⟩ := first compiler <;> rfl

theorem andThen_done (walk : Walk σ) : walk.andThen done = walk := by
  funext compiler
  change (match walk compiler with | (next, none) => done next | (last, some stop) => _) = _
  obtain ⟨next, _ | stop⟩ := walk compiler <;> rfl

variable {shadowing : Bool}

theorem steps_append (first second : List (Demand σ)) :
    steps shadowing (first ++ second) =
      (steps shadowing first).andThen (steps shadowing second) := by
  induction first with
  | nil => rfl
  | cons demand rest ih => rw [List.cons_append, steps, ih, steps, andThen_assoc]

theorem steps_singleton (demand : Demand σ) : steps shadowing [demand] = step shadowing demand :=
  andThen_done _

mutual

/-- To walk a pattern is to meet its demands one after another. -/
theorem walk_eq_steps (ref : Ref σ) (trail : Trail) (p : Pattern) :
    walk shadowing ref trail p = steps shadowing (p.demands ref trail) := by
  cases p with
  | literal value =>
    rw [walk, Pattern.demands, steps_singleton]
    rfl
  | var name =>
    rw [walk, Pattern.demands, steps_singleton]
    rfl
  | wildcard =>
    rw [walk, Pattern.demands]
    rfl
  | list items =>
    rw [walk, Pattern.demands, steps, walkItems_eq_steps]
    rfl
  | listTail items tail =>
    rw [walk, Pattern.demands, steps, walkItems_eq_steps, steps_append, steps_singleton]
    rfl

theorem walkItems_eq_steps (ref : Ref σ) (trail : Trail) (index : Nat) (items : List Pattern) :
    walkItems shadowing ref trail index items =
      steps shadowing (Pattern.itemDemands ref trail index items) := by
  cases items with
  | nil =>
    rw [walkItems, Pattern.itemDemands]
    rfl
  | cons p rest =>
    rw [walkItems, Pattern.itemDemands, steps_append, walk_eq_steps, walkItems_eq_steps]

end

/-! ## Compilers and lowerings -/

/-- A compiler that holds what a lowering does. -/
def ofLowering (lowering : Lowering σ) : Compiler σ where
  checks := lowering.checks
  refs := Lowering.entries Binding.ref lowering.bindings
  trails := Lowering.entries Binding.trail lowering.bindings

theorem lookup_entries {α : Type} (f : Binding σ → α) (bindings : List (Binding σ)) (name : Text) :
    (Lowering.entries f bindings).lookup name = (bindings.find? (·.name = name)).map f := by
  induction bindings with
  | nil => rfl
  | cons binding rest ih =>
    rw [Lowering.entries, List.map_cons, List.lookup_cons, List.find?_cons]
    by_cases h : binding.name = name
    · simp [h]
    · rw [beq_false_of_ne (Ne.symm h), decide_eq_false h]
      exact ih

theorem step_ofLowering (lowering : Lowering σ) (demand : Demand σ) :
    step shadowing demand (ofLowering lowering) =
      match lowering.meet shadowing demand with
      | .ok next => (ofLowering next, none)
      | .error fault => (ofLowering lowering, some (.fault fault)) := by
  cases demand with
  | check c => rfl
  | bind binding =>
    change bind shadowing binding.name binding.ref binding.trail (ofLowering lowering) =
      match lowering.bind shadowing binding with
      | .ok next => (ofLowering next, none)
      | .error fault => (ofLowering lowering, some (.fault fault))
    have hrefs : (ofLowering lowering).refs.lookup binding.name =
        (lowering.binding? binding.name).map Binding.ref := lookup_entries ..
    have htrails : (ofLowering lowering).trails.lookup binding.name =
        (lowering.binding? binding.name).map Binding.trail := lookup_entries ..
    have hset : (⟨lowering.checks, Assoc.insert binding.name binding.ref (ofLowering lowering).refs,
        Assoc.insert binding.name binding.trail (ofLowering lowering).trails⟩ : Compiler σ) =
        ofLowering { lowering with bindings := Lowering.setBinding binding lowering.bindings } := by
      simp only [ofLowering, Lowering.entries_setBinding]
    unfold Compiler.bind Lowering.bind
    rw [hrefs, htrails]
    by_cases hvalid : Name.isValid binding.name = true
    · rw [if_pos hvalid, if_pos hvalid]
      cases lowering.binding? binding.name with
      | none => exact congrArg (·, none) hset
      | some first =>
        cases shadowing with
        | false => rfl
        | true => exact congrArg (·, none) hset
    · rw [if_neg hvalid, if_neg hvalid]

theorem steps_ofLowering (lowering : Lowering σ) (demands : List (Demand σ)) :
    steps shadowing demands (ofLowering lowering) =
      (ofLowering (lowering.meetAll shadowing demands).1,
        (lowering.meetAll shadowing demands).2.map .fault) := by
  induction demands generalizing lowering with
  | nil => rfl
  | cons demand rest ih =>
    rw [steps, Walk.andThen, step_ofLowering, Lowering.meetAll]
    cases lowering.meet shadowing demand with
    | ok next => exact ih next
    | error fault => rfl

/-- What a call leaves behind, and what it returns. -/
theorem compile_ofLowering (root : Trail) (call : Call σ) (lowering : Lowering σ) :
    compile shadowing root call (ofLowering lowering) =
      match lowering.extend shadowing root call.subject call.pattern with
      | (next, none) =>
        (ofLowering next, .ok ⟨next.checks, Lowering.entries Binding.ref next.bindings⟩)
      | (last, some fault) => (ofLowering last, .error (.fault fault)) := by
  unfold compile Lowering.extend
  rw [walk_eq_steps, steps_ofLowering]
  obtain ⟨next, _ | fault⟩ := lowering.meetAll shadowing
    (call.pattern.demands (.subject call.subject) root) <;> rfl

end Compiler

end CaseScript
