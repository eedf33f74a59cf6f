/-!
# Trails

A trail leads from a named root through fields and list items to one place in an input tree, and is
written like `expr.clauses[1].pattern`.
-/

namespace CaseScript

inductive Trail where
  | root (name : String)
  | field (parent : Trail) (name : String)
  | item (parent : Trail) (index : Nat)
  deriving DecidableEq, Repr

namespace Trail

/-- Fields follow a period, item numbers stand in brackets. -/
def written : Trail → String
  | root name => name
  | field parent name => parent.written ++ "." ++ name
  | item parent index => parent.written ++ "[" ++ toString index ++ "]"

/-- The item of a list field. -/
def entry (trail : Trail) (name : String) (index : Nat) : Trail := (trail.field name).item index

@[simp] theorem written_root (name : String) : (root name).written = name := rfl

example : ((root "expr").entry "clauses" 1 |>.field "pattern").written =
    "expr.clauses[1].pattern" := by
  decide +kernel

end Trail
end CaseScript
