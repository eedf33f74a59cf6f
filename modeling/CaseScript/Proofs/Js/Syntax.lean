import CaseScript.Script.Literal

/-!
# JavaScript programs

The part of JavaScript that scripts are written in, as syntax trees with their text. Nothing here
knows of patterns or matches: a check is an operation on the parts of a name, and the function that
holds a block is called like any other.

Operators are not ranked by precedence, on which no scope depends. What does depend on the operator
is kept: a comma ends an arrow and, in a `let`, begins another declaration; behind a dot stands a
property; and an arrow mark makes the name before it a parameter.
-/

namespace CaseScript
namespace Js

mutual

inductive Expression where
  | literal (value : Literal)
  | name (identifier : String)
  /-- A word behind a dot. It refers to no declaration. -/
  | word (identifier : String)
  | array (items : List Expression)
  | operation (op : String) (left right : Expression)
  | arrow (params : List String) (body : Expression)
  /-- An arrow whose only parameter has no parentheses. -/
  | bareArrow (param : String) (body : Expression)
  /-- A function without parameters whose body is a block. -/
  | function (body : List Statement)
  | call (callee : Expression) (args : List Expression)
  | member (object : Expression) (property : String)
  | item (object : Expression) (index : Nat)
  /-- A call of `new`. -/
  | construct (callee : Expression) (args : List Expression)
  | parens (inner : Expression)

inductive Statement where
  | letBe (identifier : String) (value : Expression)
  | giveBack (value : Expression)
  | ifThen (condition : Expression) (body : List Statement)
  | throw (error : Expression)

end

instance : Inhabited Expression := ⟨.array []⟩

/-- The operators that join two values. Each is one token that names nothing and separates nothing,
and the body of an arrow reaches past it. -/
def joiners : List String :=
  ["+", "-", "*", "/", "%", "**", "<<", ">>", ">>>", "&", "|", "^", "&&", "||", "??",
    "==", "!=", "===", "!==", "<", ">", "<=", ">=", "in", "instanceof",
    "=", "+=", "-=", "*=", "/=", "%=", "**=", "<<=", ">>=", ">>>=", "&=", "|=", "^=",
    "&&=", "||=", "??="]

/-- The operators that a property stands behind. -/
def selectors : List String := [".", "?."]

/-- All operators that may stand between any two operands. -/
def operators : List String := "," :: selectors ++ joiners

/-- Does an expression end with the body of an arrow? -/
def Expression.endsInArrow : Expression → Bool
  | .arrow _ _ | .bareArrow _ _ => true
  | .operation _ _ right => right.endsInArrow
  | _ => false

/-- The right operand of a selector: a name that it begins with is that of a property. -/
def Expression.selected : Expression → Expression
  | .name identifier => .word identifier
  | .operation op left right => .operation op left.selected right
  | .call callee args => .call callee.selected args
  | .member object property => .member object.selected property
  | .item object index => .item object.selected index
  | e => e

/-- What is read where an operator is written between two operands without commas. The body of an
arrow reaches as far as it can, so an arrow at the end of the left operand takes the right operand
into its body. Otherwise the left operand stays as it is, whatever its own operators are. -/
def Expression.bound : Expression → String → Expression → Expression
  | .arrow params body, op, right => .arrow params (body.bound op right)
  | .bareArrow param body, op, right => .bareArrow param (body.bound op right)
  | .operation first left last, op, right =>
    if last.endsInArrow then .operation first left (last.bound op right)
    else .operation op (.operation first left last)
      (if op ∈ selectors then right.selected else right)
  | left, op, right => .operation op left (if op ∈ selectors then right.selected else right)

/-- Changes what stands in front of the first comma. Commas are at the root of an expression. -/
def Expression.overFirst (f : Expression → Expression) : Expression → Expression
  | .operation op left right =>
    if op = "," then .operation op (left.overFirst f) right else f (.operation op left right)
  | e => f e

/-- Changes what stands behind the last comma. -/
def Expression.overLast (f : Expression → Expression) : Expression → Expression
  | .operation op left right =>
    if op = "," then .operation op left (right.overLast f) else f (.operation op left right)
  | e => f e

/-- The parameter that an arrow mark makes of its left operand. -/
def Expression.param? : Expression → String → Option String
  | .name identifier, op => if op = "=>" then some identifier else none
  | _, _ => none

/-- What is read where an operator is written between two expressions. A comma parts them; any other
operator joins only what stands between the commas on both sides of it. -/
def Expression.joined (left : Expression) (op : String) (right : Expression) : Expression :=
  if op = "," then .operation op left right
  else
    match left.param? op with
    | some param => right.overFirst (.bareArrow param)
    | none => left.overLast fun last => right.overFirst (last.bound op)

/-- The conjunction of tests, tried from the left. -/
def conjunction : List Expression → Expression
  | [] => .literal (.bool true)
  | test :: rest => rest.foldl (.operation "&&") test

mutual

/-- The names that a declaration declares whose target an expression begins with: a name, or an
array of targets. -/
def Expression.targets : Expression → List String
  | .name identifier => [identifier]
  | .array items => Expression.targetsAll items
  | .operation _ left _ => left.targets
  | .bareArrow param _ => [param]
  | _ => []

def Expression.targetsAll : List Expression → List String
  | [] => []
  | e :: rest => e.targets ++ Expression.targetsAll rest

end

/-- The names that a `let` declares behind the commas of its initialiser. -/
def Expression.later : Expression → List String
  | .operation op left right => if op = "," then left.later ++ right.targets ++ right.later else []
  | _ => []

/-- The names that the statements of a block declare in it. -/
def declared : List Statement → List String
  | [] => []
  | .letBe identifier value :: rest => identifier :: (value.later ++ declared rest)
  | _ :: rest => declared rest

mutual

/-- The text of an expression on as few lines as it can stand on, without indentation. -/
def Expression.written : Expression → String
  | .literal value => value.written
  | .name identifier | .word identifier => identifier
  | .array items => "[" ++ ", ".intercalate (Expression.writtenAll items) ++ "]"
  | .operation op left right => left.written ++ " " ++ op ++ " " ++ right.written
  | .arrow params body => "(" ++ ", ".intercalate params ++ ") => " ++ body.written
  | .bareArrow param body => param ++ " => " ++ body.written
  | .function body =>
    "() => \x7b\n" ++ "\n".intercalate (Statement.writtenAll body) ++ "\n\x7d"
  | .call callee args =>
    callee.written ++ "(" ++ ", ".intercalate (Expression.writtenAll args) ++ ")"
  | .member object property => object.written ++ "." ++ property
  | .item object index => object.written ++ "[" ++ toString index ++ "]"
  | .construct callee args =>
    "new " ++ callee.written ++ "(" ++ ", ".intercalate (Expression.writtenAll args) ++ ")"
  | .parens inner => "(" ++ inner.written ++ ")"

def Expression.writtenAll : List Expression → List String
  | [] => []
  | e :: rest => e.written :: Expression.writtenAll rest

def Statement.written : Statement → String
  | .letBe identifier value => "let " ++ identifier ++ " = " ++ value.written ++ ";"
  | .giveBack value => "return " ++ value.written ++ ";"
  | .ifThen condition body =>
    "if (" ++ condition.written ++ ") \x7b\n" ++ "\n".intercalate (Statement.writtenAll body) ++
      "\n\x7d"
  | .throw error => "throw " ++ error.written ++ ";"

def Statement.writtenAll : List Statement → List String
  | [] => []
  | s :: rest => s.written :: Statement.writtenAll rest

end

mutual

/-- The operators between the operands in an expression, as they are written. -/
def Expression.operators : Expression → List String
  | .literal _ | .name _ | .word _ => []
  | .array items => Expression.operatorsAll items
  | .operation op left right => left.operators ++ [op] ++ right.operators
  | .arrow _ body | .bareArrow _ body => body.operators
  | .function body => Statement.operatorsAll body
  | .call callee args | .construct callee args =>
    callee.operators ++ Expression.operatorsAll args
  | .member object _ | .item object _ => object.operators
  | .parens inner => inner.operators

def Expression.operatorsAll : List Expression → List String
  | [] => []
  | e :: rest => e.operators ++ Expression.operatorsAll rest

def Statement.operators : Statement → List String
  | .letBe _ value | .giveBack value => value.operators
  | .ifThen condition body => condition.operators ++ Statement.operatorsAll body
  | .throw error => error.operators

def Statement.operatorsAll : List Statement → List String
  | [] => []
  | s :: rest => s.operators ++ Statement.operatorsAll rest

end

theorem written_selected (e : Expression) : e.selected.written = e.written := by
  fun_induction Expression.selected e with
  | case1 identifier => rfl
  | case2 op left right ih => rw [Expression.written, ih, Expression.written]
  | case3 callee args ih => rw [Expression.written, ih, Expression.written]
  | case4 object property ih => rw [Expression.written, ih, Expression.written]
  | case5 object index ih => rw [Expression.written, ih, Expression.written]
  | case6 e => rfl

theorem written_selected_if (op : String) (right : Expression) :
    (if op ∈ selectors then right.selected else right).written = right.written := by
  split
  · exact written_selected right
  · rfl

theorem written_bound (left : Expression) (op : String) (right : Expression) :
    (left.bound op right).written = left.written ++ " " ++ op ++ " " ++ right.written := by
  fun_induction Expression.bound left op right with
  | case1 params body op right ih =>
    rw [Expression.written, ih, Expression.written]
    simp only [String.append_assoc]
  | case2 param body op right ih =>
    rw [Expression.written, ih, Expression.written]
    simp only [String.append_assoc]
  | case3 first left last op right h ih =>
    rw [Expression.written, ih, Expression.written]
    simp only [String.append_assoc]
  | case4 first left last op right h => rw [Expression.written, written_selected_if]
  | case5 left op right => rw [Expression.written, written_selected_if]

/-- What is written in front of the part before the first comma is written in front of all parts. -/
theorem written_overFirst {f : Expression → Expression} (front : String)
    (h : ∀ e, (f e).written = front ++ e.written) (e : Expression) :
    (e.overFirst f).written = front ++ e.written := by
  fun_induction Expression.overFirst f e with
  | case1 left right ih =>
    rw [Expression.written, ih, Expression.written]
    simp only [String.append_assoc]
  | case2 op left right hop => exact h _
  | case3 e => exact h e

theorem written_overLast {f : Expression → Expression} {back : String}
    (h : ∀ e, (f e).written = e.written ++ back) (e : Expression) :
    (e.overLast f).written = e.written ++ back := by
  fun_induction Expression.overLast f e with
  | case1 left right ih =>
    rw [Expression.written, ih, Expression.written]
    simp only [String.append_assoc]
  | case2 op left right hop => exact h _
  | case3 e => exact h e

theorem param?_eq_some {left : Expression} {op param : String} (h : left.param? op = some param) :
    left = .name param ∧ op = "=>" := by
  cases left with
  | name identifier =>
    rw [Expression.param?] at h
    split at h
    · cases h
      exact ⟨rfl, ‹_›⟩
    · cases h
  | _ => cases h

/-- However the operands are read, they are written side by side. -/
theorem written_joined (left : Expression) (op : String) (right : Expression) :
    (left.joined op right).written = left.written ++ " " ++ op ++ " " ++ right.written := by
  unfold Expression.joined
  split
  · rfl
  · split
    · rename_i param hparam
      obtain ⟨rfl, rfl⟩ := param?_eq_some hparam
      refine (written_overFirst (param ++ " => ") (fun e => ?_) right).trans ?_
      · rw [Expression.written]
      · rw [Expression.written, show " => " = " " ++ "=>" ++ " " from rfl]
        simp only [String.append_assoc]
    · have hback : ∀ last : Expression, (right.overFirst (last.bound op)).written =
          last.written ++ (" " ++ op ++ " " ++ right.written) := by
        intro last
        refine (written_overFirst (last.written ++ " " ++ op ++ " ") (fun e => ?_) right).trans ?_
        · exact written_bound last op e
        · simp only [String.append_assoc]
      rw [written_overLast hback]
      simp only [String.append_assoc]

theorem written_foldl_and (tests : List Expression) (first : Expression) :
    (tests.foldl (.operation "&&") first).written =
      " && ".intercalate (first.written :: tests.map Expression.written) := by
  induction tests generalizing first with
  | nil => simp
  | cons test rest ih =>
    rw [List.foldl_cons, ih, List.map_cons, String.intercalate_cons_cons]
    simp only [Expression.written, String.intercalate_cons_append, String.append_assoc]
    rfl

/-- The conjunction of at least one test is the tests with `&&` between them. -/
theorem written_conjunction {tests : List Expression} (h : tests ≠ []) :
    (conjunction tests).written = " && ".intercalate (tests.map Expression.written) := by
  cases tests with
  | nil => exact absurd rfl h
  | cons test rest => exact written_foldl_and rest test

/-- What is collected from both sides of an operation is collected from all tests of a
conjunction. -/
theorem collect_conjunction {α : Type} (collect : Expression → List α)
    (hliteral : collect (.literal (.bool true)) = [])
    (hand : ∀ left right,
      collect (.operation "&&" left right) = collect left ++ collect right)
    (tests : List Expression) : collect (conjunction tests) = tests.flatMap collect := by
  have hfold : ∀ (tests : List Expression) (first : Expression),
      collect (tests.foldl (.operation "&&") first) = collect first ++ tests.flatMap collect := by
    intro tests
    induction tests with
    | nil => simp
    | cons test rest ih =>
      intro first
      rw [List.foldl_cons, ih, hand, List.append_assoc, List.flatMap_cons]
  cases tests with
  | nil => exact hliteral
  | cons test rest => exact hfold rest test

end Js
end CaseScript
