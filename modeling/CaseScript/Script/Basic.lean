import CaseScript.Pattern.Lowering

/-!
# Scripts

The terms and statements that a tree is turned into. A block stands for an expression by being the
body of a function that is called at once; it ends when a statement gives its value.
-/

namespace CaseScript
namespace Script

mutual

inductive Term where
  | literal (value : Literal)
  | name (identifier : String)
  | array (items : List Term)
  | operation (op : String) (left right : Term)
  | arrow (params : List String) (body : Term)
  | call (function : Term) (args : List Term)
  /-- A place inside the value of an identifier. -/
  | ref (place : Ref String)
  | block (body : List Stmt)

inductive Stmt where
  | declare (identifier : String) (value : Term)
  | give (value : Term)
  /-- Runs the body if all checks hold. -/
  | guarded (checks : List (Check String)) (body : List Stmt)
  /-- Ends the script because no clause matched. -/
  | fail

end

instance : Inhabited Term := ⟨.block []⟩

instance : Inhabited Stmt := ⟨.fail⟩

/-- Functions and operations stand in parentheses where they are called. -/
def Term.needsParens : Term → Bool
  | .arrow _ _ | .operation _ _ _ => true
  | _ => false

end Script
end CaseScript
