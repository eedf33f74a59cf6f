import CaseScript.Expr.Basic
import CaseScript.Expr.ShapeFault
import CaseScript.Expr.Tag
import CaseScript.Text.Operator

/-!
# Expressions and patterns from JSON

Every node is an object with a tag in the field `type`; fields that the tag does not ask for are
ignored. The first fault of a node ends the reading of that node, but the items of a list are all
read, so that each faulty item is reported.
-/

namespace CaseScript

/-- A node, or all the faults that were met on the way. -/
abbrev Decoded (α : Type) := Except (List ShapeFault) α

namespace Decoded

variable {α : Type}

def fault (trail : Trail) (cause : ShapeFault.Cause) : Decoded α := .error [⟨trail, cause⟩]

/-- A first item and the items after it, with the faults of both. -/
def cons : Decoded α → Decoded (List α) → Decoded (List α)
  | .ok item, .ok items => .ok (item :: items)
  | .ok _, .error faults => .error faults
  | .error faults, .ok _ => .error faults
  | .error faults, .error more => .error (faults ++ more)

/-- A field of one kind, read off by `read?`. -/
def field (kind : Json.Kind) (read? : Json → Option α) (trail : Trail) (name : String)
    (fields : List (Text × Json)) : Decoded α :=
  match Json.lookup name fields with
  | none => fault trail (.missingField name)
  | some value =>
    match read? value with
    | none => fault (trail.field name) (.wrongKind name kind)
    | some a => pure a

def int : Trail → String → List (Text × Json) → Decoded Int := field .integer Json.int?

def bool : Trail → String → List (Text × Json) → Decoded Bool := field .boolean Json.bool?

def string : Trail → String → List (Text × Json) → Decoded Text := field .string Json.string?

def list : Trail → String → List (Text × Json) → Decoded (List Json) := field .array Json.array?

/-- The entries of a list of strings, up to the first that is none. -/
def entries (trail : Trail) (name : String) (index : Nat) : List Json → Decoded (List Text)
  | [] => pure []
  | value :: rest =>
    match value.string? with
    | none => fault (trail.entry name index) (.entryNotString name)
    | some s => return s :: (← entries trail name (index + 1) rest)

def strings (trail : Trail) (name : String) (fields : List (Text × Json)) :
    Decoded (List Text) := do
  entries trail name 0 (← list trail name fields)

def operator (trail : Trail) (fields : List (Text × Json)) : Decoded Text := do
  let op ← string trail "op" fields
  if op.isOperator then pure op else fault (trail.field "op") .badOperator

def tag (trail : Trail) (fields : List (Text × Json)) : Decoded Text :=
  match Json.lookup "type" fields with
  | some (.string s) => pure s
  | _ => fault trail .missingTag

end Decoded

namespace Pattern

open Decoded

mutual

/-- The pattern that a JSON value describes. -/
def ofJson (trail : Trail) (json : Json) : Decoded Pattern :=
  match json with
  | .object fields => do
    let tag ← tag trail fields
    match Tag.ofText? tag with
    | some .wildcard => return wildcard
    | some .var => return var (← string trail "name" fields)
    | some .int => return literal (.int (← int trail "value" fields))
    | some .string => return literal (.string (← string trail "value" fields))
    | some .bool => return literal (.bool (← bool trail "value" fields))
    | some .list => return list (← itemsOfJson trail "items" fields)
    | some .listTail =>
      let items ← itemsOfJson trail "items" fields
      return listTail items (← string trail "tail" fields)
    | none => fault trail (.unknownPattern tag)
  | other => fault trail (.notObject other.kind)

/-- The patterns in a list field. -/
def itemsOfJson (trail : Trail) (name : String) : List (Text × Json) → Decoded (List Pattern)
  | [] => fault trail (.missingField name)
  | (key, value) :: rest =>
    if Text.ofString name = key then
      match value with
      | .array items => listOfJson (trail.field name) 0 items
      | _ => fault (trail.field name) (.wrongKind name .array)
    else itemsOfJson trail name rest

/-- The patterns that the items from `index` on describe. -/
def listOfJson (trail : Trail) (index : Nat) : List Json → Decoded (List Pattern)
  | [] => pure []
  | item :: rest => (ofJson (trail.item index) item).cons (listOfJson trail (index + 1) rest)

end

/-- The pattern in an object field. -/
def fieldOfJson (trail : Trail) (name : String) (fields : List (Text × Json)) : Decoded Pattern :=
  match Json.lookup name fields with
  | none => fault trail (.missingField name)
  | some (.object inner) => ofJson (trail.field name) (.object inner)
  | some _ => fault (trail.field name) (.wrongKind name .object)

end Pattern

namespace Expr

open Decoded

mutual

/-- The expression that a JSON value describes. -/
def ofJson (trail : Trail) (json : Json) : Decoded Expr :=
  match json with
  | .object fields => do
    let tag ← tag trail fields
    match Tag.ofText? tag with
    | some .int => return literal (.int (← int trail "value" fields))
    | some .string => return literal (.string (← string trail "value" fields))
    | some .bool => return literal (.bool (← bool trail "value" fields))
    | some .var => return var (← string trail "name" fields)
    | some .list => return list (← itemsOfJson trail "items" fields)
    | some .binop =>
      let op ← operator trail fields
      let left ← fieldOfJson trail "left" fields
      return binop op left (← fieldOfJson trail "right" fields)
    | some .letIn =>
      let name ← string trail "name" fields
      let value ← fieldOfJson trail "value" fields
      return letIn name value (← fieldOfJson trail "body" fields)
    | some .apply =>
      let function ← fieldOfJson trail "function" fields
      return apply function (← itemsOfJson trail "args" fields)
    | some .lambda =>
      let params ← strings trail "params" fields
      return lambda params (← fieldOfJson trail "body" fields)
    | some .cases =>
      let subject ← fieldOfJson trail "subject" fields
      return cases subject (← clausesOfJson trail "clauses" fields)
    | none => fault trail (.unknownExpr tag)
  | other => fault trail (.notObject other.kind)

/-- The expression in an object field. -/
def fieldOfJson (trail : Trail) (name : String) : List (Text × Json) → Decoded Expr
  | [] => fault trail (.missingField name)
  | (key, value) :: rest =>
    if Text.ofString name = key then
      if value.kind = .object then ofJson (trail.field name) value
      else fault (trail.field name) (.wrongKind name .object)
    else fieldOfJson trail name rest

/-- The expressions in a list field. -/
def itemsOfJson (trail : Trail) (name : String) : List (Text × Json) → Decoded (List Expr)
  | [] => fault trail (.missingField name)
  | (key, value) :: rest =>
    if Text.ofString name = key then
      match value with
      | .array items => listOfJson (trail.field name) 0 items
      | _ => fault (trail.field name) (.wrongKind name .array)
    else itemsOfJson trail name rest

/-- The expressions that the items from `index` on describe. -/
def listOfJson (trail : Trail) (index : Nat) : List Json → Decoded (List Expr)
  | [] => pure []
  | item :: rest => (ofJson (trail.item index) item).cons (listOfJson trail (index + 1) rest)

/-- The clauses in a list field. -/
def clausesOfJson (trail : Trail) (name : String) : List (Text × Json) → Decoded (List Clause)
  | [] => fault trail (.missingField name)
  | (key, value) :: rest =>
    if Text.ofString name = key then
      match value with
      | .array items => clauseListOfJson (trail.field name) 0 items
      | _ => fault (trail.field name) (.wrongKind name .array)
    else clausesOfJson trail name rest

def clauseListOfJson (trail : Trail) (index : Nat) : List Json → Decoded (List Clause)
  | [] => pure []
  | item :: rest =>
    (clauseOfJson (trail.item index) item).cons (clauseListOfJson trail (index + 1) rest)

def clauseOfJson (trail : Trail) (json : Json) : Decoded Clause :=
  match json with
  | .object fields => do
    let pattern ← Pattern.fieldOfJson trail "pattern" fields
    return ⟨pattern, ← fieldOfJson trail "body" fields⟩
  | _ => fault trail .clauseNotObject

end

end Expr
end CaseScript
