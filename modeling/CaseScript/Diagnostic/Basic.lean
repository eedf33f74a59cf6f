import CaseScript.Diagnostic.Trail

/-!
# Diagnostics

A diagnostic says what is wrong with an input tree, labels the places concerned, and may add notes
and suggest repairs.
-/

namespace CaseScript

inductive Severity where
  | error
  | warning
  | note
  deriving DecidableEq, Repr

namespace Severity

def name : Severity → String
  | error => "error"
  | warning => "warning"
  | note => "note"

def all : List Severity := [error, warning, note]

def ofName? (s : String) : Option Severity := all.find? (·.name == s)

@[simp] theorem ofName?_name (s : Severity) : ofName? s.name = some s := by
  cases s <;> decide

end Severity

structure Label where
  trail : Trail
  message : String
  deriving DecidableEq, Repr

/-- A repair, with the text to put in place of the faulty one. -/
structure Suggestion where
  message : String
  replacement : String
  deriving DecidableEq, Repr

structure Diagnostic where
  severity : Severity
  code : String
  message : String
  labels : List Label := []
  suggestions : List Suggestion := []
  notes : List String := []
  deriving DecidableEq, Repr

namespace Diagnostic

/-- An error at one place. A trail that is written as nothing gets no label. -/
def errorAt (code message : String) (trail : Trail) (label : String := "") : Diagnostic where
  severity := .error
  code := code
  message := message
  labels := if trail.written = "" then [] else [⟨trail, label⟩]

/-- One line for all the errors of a failed run. -/
def summary (errors : List Diagnostic) : String :=
  toString errors.length ++ " error(s): " ++ "; ".intercalate (errors.map message)

end Diagnostic
end CaseScript
