import CaseScript.Name.Fault

/-!
# Emissions

An emission is a result together with the decisions that were taken on the way to it. When a fault
ends an emission, the decisions before the fault remain.
-/

namespace CaseScript
namespace Script

/-- What becomes of the clauses of a match. -/
inductive Decision where
  /-- A clause that is guarded by checks. -/
  | guarded (clause : Trail) (checks : Nat)
  /-- The clause that every value matches, and the number of clauses after it, which are dropped. -/
  | catchAll (whole : Trail) (index dropped : Nat)
  /-- A match that fails if no clause matches. -/
  | failing (whole : Trail)
  deriving DecidableEq, Repr

namespace Decision

def clause (whole : Trail) (index : Nat) : Trail := whole.entry "clauses" index

/-- The line that a log holds for a decision. -/
def logLine : Decision → String
  | guarded clause checks => clause.written ++ ": " ++ toString checks ++ " check(s)"
  | catchAll whole index dropped =>
    (clause whole index).written ++ ": catch-all clause, " ++ toString dropped ++
      " clause(s) dropped"
  | failing whole => whole.written ++ ": no catch-all clause, adding failure"

/-- The warning that a clause is never reached because of an earlier one. -/
def unreachable (whole : Trail) (catchAll index : Nat) : Diagnostic where
  severity := .warning
  code := "W301"
  message := "unreachable match clause"
  labels :=
    [⟨clause whole index, "this clause is never emitted"⟩,
      ⟨clause whole catchAll, "every value matches here"⟩]

/-- One warning for every dropped clause. -/
def warnings : Decision → List Diagnostic
  | catchAll whole index dropped =>
    (List.range dropped).map fun k => unreachable whole index (index + 1 + k)
  | _ => []

end Decision

structure Emission (α : Type) where
  decisions : List Decision
  result : Except NamingFault α

namespace Emission

variable {α β : Type}

def ofExcept (result : Except NamingFault α) : Emission α := ⟨[], result⟩

/-- Takes a decision. -/
def decide (decision : Decision) : Emission Unit := ⟨[decision], .ok ()⟩

def bind (x : Emission α) (f : α → Emission β) : Emission β :=
  match x.result with
  | .error fault => ⟨x.decisions, .error fault⟩
  | .ok a => ⟨x.decisions ++ (f a).decisions, (f a).result⟩

instance : Monad Emission where
  pure a := ⟨[], .ok a⟩
  bind := bind

def warnings (x : Emission α) : List Diagnostic := x.decisions.flatMap Decision.warnings

@[simp] theorem pure_eq (a : α) : (pure a : Emission α) = ⟨[], .ok a⟩ := rfl

@[simp] theorem error_bind (decisions : List Decision) (fault : NamingFault) (f : α → Emission β) :
    ((⟨decisions, .error fault⟩ : Emission α) >>= f) = ⟨decisions, .error fault⟩ := rfl

@[simp] theorem ok_bind (decisions : List Decision) (a : α) (f : α → Emission β) :
    ((⟨decisions, .ok a⟩ : Emission α) >>= f) =
      ⟨decisions ++ (f a).decisions, (f a).result⟩ := rfl

end Emission
end Script
end CaseScript
