import CaseScript.Script.Basic
import CaseScript.Script.Emission

/-!
# Scripts from expressions

A match becomes a block that holds the subject, tries the clauses in order and fails after the last.
Each clause is guarded by the checks of its pattern; the first clause without checks ends the block.
-/

namespace CaseScript
namespace Script

/-- The identifiers of the parameters after those in `before`, all of a function at `trail`. -/
def parameters (trail : Trail) (before : List Text) : List Text → Except NamingFault (List String)
  | [] => .ok []
  | param :: rest =>
    let place := trail.entry "params" before.length
    match before.idxOf? param with
    | some first => .error (.repeatedParameter param (trail.entry "params" first) place)
    | none => do
      let identifier ← Name.identifierAt place param
      return identifier :: (← parameters trail (before ++ [param]) rest)

/-- The statements that declare the names of a pattern. -/
def declarations (lowering : Lowering String) : List Stmt :=
  lowering.bindings.map fun binding =>
    .declare (Name.identifier binding.name) (.ref binding.ref)

mutual

/-- The script for an expression at `trail`. -/
def ofExpr (shadowing : Bool) (trail : Trail) : Expr → Emission Term
  | .literal value => pure (.literal value)
  | .var name => return .name (← .ofExcept (Name.identifierAt trail name))
  | .list items => return .array (← ofItems shadowing (trail.field "items") 0 items)
  | .binop op left right => do
    let left ← ofExpr shadowing (trail.field "left") left
    let op ← .ofExcept (Text.operatorAt (trail.field "op") op)
    return .operation op left (← ofExpr shadowing (trail.field "right") right)
  | .letIn name value body => do
    let identifier ← .ofExcept (Name.identifierAt (trail.field "name") name)
    let value ← ofExpr shadowing (trail.field "value") value
    let body ← ofExpr shadowing (trail.field "body") body
    return .block [.declare identifier value, .give body]
  | .apply function args => do
    let function ← ofExpr shadowing (trail.field "function") function
    return .call function (← ofItems shadowing (trail.field "args") 0 args)
  | .lambda params body => do
    let params ← .ofExcept (parameters trail [] params)
    return .arrow params (← ofExpr shadowing (trail.field "body") body)
  | .cases subject clauses => do
    let subject ← ofExpr shadowing (trail.field "subject") subject
    return .block (.declare Name.subject subject :: (← ofClauses shadowing trail 0 clauses))

/-- The scripts for the items from `index` on. -/
def ofItems (shadowing : Bool) (trail : Trail) (index : Nat) : List Expr → Emission (List Term)
  | [] => pure []
  | item :: rest => do
    let item ← ofExpr shadowing (trail.item index) item
    return item :: (← ofItems shadowing trail (index + 1) rest)

/-- The statements for the clauses from `index` on of a match at `trail`. -/
def ofClauses (shadowing : Bool) (trail : Trail) (index : Nat) :
    List Clause → Emission (List Stmt)
  | [] => do
    .decide (.failing trail)
    return [.fail]
  | ⟨pattern, body⟩ :: rest => do
    let place := Decision.clause trail index
    let lowering ←
      .ofExcept (pattern.lower shadowing (place.field "pattern") Name.subject)
    let body ← ofExpr shadowing (place.field "body") body
    let stmts := declarations lowering ++ [.give body]
    if lowering.isCatchAll then
      .decide (.catchAll trail index rest.length)
      return stmts
    else
      .decide (.guarded place lowering.checks.length)
      return .guarded lowering.checks stmts :: (← ofClauses shadowing trail (index + 1) rest)

end

end Script
end CaseScript
