import CaseScript.Proofs.Js.Syntax

/-!
# What JavaScript programs do

Values, the evaluation of those expressions that a condition or an initialiser of a script consists
of, and the execution of statements up to the `return` that they reach. Every other expression is
left without a value, so a statement that something evaluates says that no such expression is met.
-/

namespace CaseScript
namespace Js

inductive Value where
  | undefined
  | int (value : Int)
  /-- A string, as its UTF-16 code units. -/
  | string (units : List Nat)
  | bool (value : Bool)
  /-- An array without holes. Its identity is not part of the value. -/
  | array (items : List Value)
  /-- Any other object. -/
  | object (identity : Nat)
  /-- What the global name `Array` stands for. -/
  | arrayClass

namespace Value

def ofLiteral : Literal → Value
  | .int value => .int value
  | .string value => .string value.units
  | .bool value => .bool value

def truthy : Value → Bool
  | undefined => false
  | int value => decide (value ≠ 0)
  | string units => !units.isEmpty
  | bool value => value
  | _ => true

/-- The result of `===`. Two arrays are not compared, since that asks for their identity. -/
def identical? : Value → Value → Option Bool
  | undefined, undefined => some true
  | int a, int b => some (decide (a = b))
  | string a, string b => some (decide (a = b))
  | bool a, bool b => some (decide (a = b))
  | object a, object b => some (decide (a = b))
  | arrayClass, arrayClass => some true
  | array _, array _ => none
  | _, _ => some false

def atLeast? : Value → Value → Option Bool
  | int a, int b => some (decide (b ≤ a))
  | _, _ => none

/-- The item at an index: `undefined` past the end, an exception on `undefined` itself. -/
def item? : Value → Nat → Option Value
  | array items, index => some (items[index]?.getD undefined)
  | string units, index => some ((units[index]?.map fun unit => string [unit]).getD undefined)
  | int _, _ | bool _, _ => some undefined
  | _, _ => none

def property? : Value → String → Option Value
  | array items, "length" => some (int items.length)
  | string units, "length" => some (int units.length)
  | int _, "length" | bool _, "length" => some undefined
  | _, _ => none

def isArray : Value → Bool
  | array _ => true
  | _ => false

/-- The result of calling a method. -/
def invoke? : Value → String → List Value → Option Value
  | arrayClass, "isArray", [value] => some (bool value.isArray)
  | array items, "slice", [int start] =>
    if 0 ≤ start then some (array (items.drop start.toNat)) else none
  | _, _, _ => none

end Value

/-- The values of the names that can be read; reading any other name is an exception. -/
abbrev Scope := String → Option Value

/-- A scope with one more name. -/
def Scope.set (scope : Scope) (name : String) (value : Value) : Scope :=
  fun other => if other = name then some value else scope other

def Scope.setAll (scope : Scope) (values : List (String × Value)) : Scope :=
  values.foldl (fun scope entry => scope.set entry.1 entry.2) scope

/-- The scope inside a block that declares `names`: none of them can be read yet. -/
def Scope.enter (scope : Scope) (names : List String) : Scope :=
  fun other => if other ∈ names then none else scope other

@[simp] theorem Scope.set_self (scope : Scope) (name : String) (value : Value) :
    scope.set name value name = some value := by
  simp [Scope.set]

theorem Scope.set_of_ne (scope : Scope) {name other : String} (h : other ≠ name) (value : Value) :
    scope.set name value other = scope other := by
  simp [Scope.set, h]

theorem Scope.enter_of_notMem (scope : Scope) {names : List String} {other : String}
    (h : other ∉ names) : scope.enter names other = scope other := by
  simp [Scope.enter, h]

theorem Scope.setAll_apply (scope : Scope) (values : List (String × Value)) (name : String) :
    scope.setAll values name = (values.reverse.lookup name).or (scope name) := by
  induction values generalizing scope with
  | nil => simp [Scope.setAll]
  | cons entry rest ih =>
    obtain ⟨first, value⟩ := entry
    have hrest : scope.setAll ((first, value) :: rest) = (scope.set first value).setAll rest := rfl
    rw [hrest, ih, List.reverse_cons, List.lookup_append, Option.or_assoc]
    by_cases h : name = first
    · subst h
      simp
    · simp [Scope.set_of_ne scope h, List.lookup_cons, beq_false_of_ne h]

/-- A block that gives values to all the names it declares leaves nothing hidden. -/
theorem Scope.setAll_enter (scope : Scope) {names : List String} {values : List (String × Value)}
    (h : ∀ name ∈ names, name ∈ values.map Prod.fst) :
    (scope.enter names).setAll values = scope.setAll values := by
  funext name
  rw [Scope.setAll_apply, Scope.setAll_apply]
  by_cases hn : name ∈ names
  · have hmem : name ∈ values.reverse.map Prod.fst := by simpa using h name hn
    obtain ⟨entry, hentry, rfl⟩ := List.mem_map.mp hmem
    have hsome : (values.reverse.lookup entry.1).isSome = true := by
      rw [List.lookup_isSome_iff]
      exact ⟨entry, hentry, by simp⟩
    obtain ⟨value, hvalue⟩ := Option.isSome_iff_exists.mp hsome
    rw [hvalue, Option.some_or, Option.some_or]
  · rw [Scope.enter_of_notMem scope hn]

/-- The result of an operator. The right operand of `&&` counts only if the left one is truthy. -/
def operate (op : String) (left right : Option Value) : Option Value :=
  match op with
  | "&&" => left.bind fun value => if value.truthy then right else some value
  | "===" => left.bind fun a => right.bind fun b => (a.identical? b).map .bool
  | ">=" => left.bind fun a => right.bind fun b => (a.atLeast? b).map .bool
  | _ => none

mutual

/-- The value of an expression, or none where evaluation throws. -/
def Expression.eval (scope : Scope) : Expression → Option Value
  | .literal value => some (.ofLiteral value)
  | .name identifier => scope identifier
  | .array items => (Expression.evalAll scope items).map .array
  | .operation op left right => operate op (left.eval scope) (right.eval scope)
  | .member object property => (object.eval scope).bind (·.property? property)
  | .item object index => (object.eval scope).bind (·.item? index)
  | .call (.member object method) args =>
    (object.eval scope).bind fun value =>
      (Expression.evalAll scope args).bind fun args => value.invoke? method args
  | .parens inner => inner.eval scope
  | _ => none

def Expression.evalAll (scope : Scope) : List Expression → Option (List Value)
  | [] => some []
  | e :: rest =>
    (e.eval scope).bind fun value => (Expression.evalAll scope rest).map (value :: ·)

end

/-- Do all tests hold, tried in order up to the first that does not? -/
def allHold (scope : Scope) : List Expression → Option Bool
  | [] => some true
  | test :: rest =>
    (test.eval scope).bind fun value => if value.truthy then allHold scope rest else some false

@[simp] theorem allHold_nil (scope : Scope) : allHold scope [] = some true := rfl

theorem allHold_append (scope : Scope) (first second : List Expression) :
    allHold scope (first ++ second) =
      (allHold scope first).bind fun holds =>
        if holds then allHold scope second else some false := by
  induction first with
  | nil => rfl
  | cons test rest ih =>
    rw [List.cons_append, allHold, allHold, ih]
    cases test.eval scope with
    | none => rfl
    | some value => by_cases h : value.truthy = true <;> simp [h]

/-- How the execution of statements ends. -/
inductive Outcome where
  /-- After the last statement, with the names declared in the block so far. -/
  | completed (scope : Scope) (locals : List (String × Value))
  /-- At a `return` of this expression, with the names declared in the block around it. -/
  | returned (scope : Scope) (locals : List (String × Value)) (value : Expression)
  /-- At a `throw` of this expression. -/
  | thrown (error : Expression)
  /-- By an exception in an initialiser or a condition. -/
  | failed

/-- The outcome of a block that is over: its names are gone. -/
def Outcome.leave (scope : Scope) (locals : List (String × Value)) : Outcome → Outcome
  | .completed _ _ => .completed scope locals
  | outcome => outcome

mutual

def Statement.run (scope : Scope) (locals : List (String × Value)) : Statement → Outcome
  | .letBe identifier value =>
    match value.eval scope with
    | some value => .completed (scope.set identifier value) (locals ++ [(identifier, value)])
    | none => .failed
  | .giveBack value => .returned scope locals value
  | .ifThen condition body =>
    match condition.eval scope with
    | some value =>
      if value.truthy then
        (Statement.runAll (scope.enter (declared body)) [] body).leave scope locals
      else .completed scope locals
    | none => .failed
  | .throw error => .thrown error

/-- Runs the statements of a block in turn; only a statement that completes is followed by
others. -/
def Statement.runAll (scope : Scope) (locals : List (String × Value)) : List Statement → Outcome
  | [] => .completed scope locals
  | s :: rest =>
    match s.run scope locals with
    | .completed scope locals => Statement.runAll scope locals rest
    | outcome => outcome

end

end Js
end CaseScript
