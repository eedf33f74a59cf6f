import CaseScript.Expr.Basic
import CaseScript.Name.Fault

/-!
# Lowering of patterns

A pattern is lowered against a reference to its subject into checks, which together say whether the
subject matches, and bindings, which say where the matched values are found. Patterns are walked
depth first and from left to right.
-/

namespace CaseScript

/-- A place inside a subject: the subject itself, an item of a list, or the items from one on. -/
inductive Ref (σ : Type) where
  | subject (s : σ)
  | item (list : Ref σ) (index : Nat)
  | rest (list : Ref σ) (start : Nat)

inductive Check (σ : Type) where
  /-- The place holds a list of exactly, or at least, so many items. -/
  | length (ref : Ref σ) (count : Nat) (atLeast : Bool)
  /-- The place holds just this literal. -/
  | equals (ref : Ref σ) (literal : Literal)

/-- A name, the place that it stands for, and where the pattern binds it. -/
structure Binding (σ : Type) where
  name : Text
  ref : Ref σ
  trail : Trail

/-- One thing that a pattern asks for. -/
inductive Demand (σ : Type) where
  | check (check : Check σ)
  | bind (binding : Binding σ)

namespace Pattern

variable {σ : Type}

mutual

/-- All that a pattern at `trail` asks of its subject, in the order of the walk. A tail is bound
after the items before it. -/
def demands (ref : Ref σ) (trail : Trail) : Pattern → List (Demand σ)
  | literal value => [.check (.equals ref value)]
  | var name => [.bind ⟨name, ref, trail⟩]
  | wildcard => []
  | list items =>
    .check (.length ref items.length false) :: itemDemands ref (trail.field "items") 0 items
  | listTail items tail =>
    .check (.length ref items.length true) ::
      (itemDemands ref (trail.field "items") 0 items ++
        [.bind ⟨tail, .rest ref items.length, trail.field "tail"⟩])

/-- The demands of the items from `index` on. -/
def itemDemands (ref : Ref σ) (trail : Trail) (index : Nat) : List Pattern → List (Demand σ)
  | [] => []
  | p :: rest =>
    demands (.item ref index) (trail.item index) p ++ itemDemands ref trail (index + 1) rest

end

end Pattern

/-- The checks and bindings of the patterns lowered so far. -/
structure Lowering (σ : Type) where
  checks : List (Check σ) := []
  bindings : List (Binding σ) := []

namespace Lowering

variable {σ : Type}

/-- A lowering without checks matches every subject. -/
def isCatchAll (lowering : Lowering σ) : Bool := lowering.checks.isEmpty

def binding? (lowering : Lowering σ) (name : Text) : Option (Binding σ) :=
  lowering.bindings.find? (·.name = name)

/-- The bindings with one more; it takes the place of an earlier one of the same name. -/
def setBinding (binding : Binding σ) : List (Binding σ) → List (Binding σ)
  | [] => [binding]
  | old :: rest =>
    if old.name = binding.name then binding :: rest else old :: setBinding binding rest

/-- Binds a name once; a second time only where bindings may shadow each other. -/
def bind (shadowing : Bool) (lowering : Lowering σ) (binding : Binding σ) :
    Except NamingFault (Lowering σ) :=
  if Name.isValid binding.name then
    match lowering.binding? binding.name, shadowing with
    | some first, false => .error (.boundTwice binding.name first.trail binding.trail)
    | _, _ => .ok { lowering with bindings := setBinding binding lowering.bindings }
  else .error (.invalidName binding.name binding.trail)

def meet (shadowing : Bool) (lowering : Lowering σ) : Demand σ → Except NamingFault (Lowering σ)
  | .check check => .ok { lowering with checks := lowering.checks ++ [check] }
  | .bind binding => lowering.bind shadowing binding

/-- Meets demands in turn up to the first that cannot be met; what was met before it stays. -/
def meetAll (shadowing : Bool) (lowering : Lowering σ) :
    List (Demand σ) → Lowering σ × Option NamingFault
  | [] => (lowering, none)
  | demand :: rest =>
    match lowering.meet shadowing demand with
    | .ok lowering => lowering.meetAll shadowing rest
    | .error fault => (lowering, some fault)

/-- Adds a pattern at `trail` to what has been lowered so far. -/
def extend (shadowing : Bool) (trail : Trail) (lowering : Lowering σ) (subject : σ) (p : Pattern) :
    Lowering σ × Option NamingFault :=
  lowering.meetAll shadowing (p.demands (.subject subject) trail)

end Lowering

/-- The checks and bindings of one pattern. -/
def Pattern.lower {σ : Type} (shadowing : Bool) (trail : Trail) (subject : σ) (p : Pattern) :
    Except NamingFault (Lowering σ) :=
  match Lowering.extend shadowing trail {} subject p with
  | (lowering, none) => .ok lowering
  | (_, some fault) => .error fault

end CaseScript
