import CaseScript.Diagnostic.Basic
import CaseScript.Name.Basic
import CaseScript.Text.Operator
import CaseScript.Text.Quoted

/-!
# Faults of naming

The reasons why no script is generated for a tree: a name or an operator that cannot be written
down, and names that are declared twice where they must differ.
-/

namespace CaseScript

inductive NamingFault where
  | invalidName (name : Text) (trail : Trail)
  | invalidOperator (op : Text) (trail : Trail)
  | boundTwice (name : Text) (first again : Trail)
  | repeatedParameter (name : Text) (first again : Trail)
  deriving DecidableEq

namespace NamingFault

def diagnostic : NamingFault → Diagnostic
  | invalidName name trail =>
    { Diagnostic.errorAt "E202" ("invalid identifier " ++ Text.quoted name) trail
        "names must match [A-Za-z_][A-Za-z0-9_]*" with
      suggestions := [⟨"rename it", Name.suggestion name⟩] }
  | invalidOperator op trail =>
    Diagnostic.errorAt "E204" ("invalid operator " ++ Text.quoted op) trail
      "operators must be non-empty and contain no whitespace"
  | boundTwice name first again =>
    { severity := .error
      code := "E201"
      message := "'" ++ name.shown ++ "' is bound more than once in the same pattern"
      labels := [⟨first, "first bound here"⟩, ⟨again, "bound again here"⟩]
      notes := ["each variable in a pattern must have a distinct name"] }
  | repeatedParameter name first again =>
    { severity := .error
      code := "E203"
      message := "duplicate parameter '" ++ name.shown ++ "'"
      labels := [⟨first, "first declared here"⟩, ⟨again, "declared again here"⟩] }

end NamingFault

/-- The identifier for a name that stands at `trail`. -/
def Name.identifierAt (trail : Trail) (name : Text) : Except NamingFault String :=
  if isValid name then .ok (identifier name) else .error (.invalidName name trail)

/-- An operator that stands at `trail`, as it is written. -/
def Text.operatorAt (trail : Trail) (op : Text) : Except NamingFault String :=
  if isOperator op then .ok op.shown else .error (.invalidOperator op trail)

end CaseScript
