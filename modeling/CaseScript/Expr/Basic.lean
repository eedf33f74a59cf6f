import CaseScript.Text.CodePoint

/-!
# Expression trees

The trees that a program is written in: literals, variables, lists, operations, local definitions,
calls, functions, and matches of a subject against the patterns of a list of clauses.
-/

namespace CaseScript

inductive Literal where
  | int (value : Int)
  | string (value : Text)
  | bool (value : Bool)
  deriving DecidableEq

inductive Pattern where
  | literal (value : Literal)
  | var (name : Text)
  | wildcard
  /-- A list of exactly these items. -/
  | list (items : List Pattern)
  /-- A list that begins with these items; the name stands for the list of all others. -/
  | listTail (items : List Pattern) (tail : Text)

mutual

inductive Expr where
  | literal (value : Literal)
  | var (name : Text)
  | list (items : List Expr)
  | binop (op : Text) (left right : Expr)
  | letIn (name : Text) (value body : Expr)
  | apply (function : Expr) (args : List Expr)
  | lambda (params : List Text) (body : Expr)
  | cases (subject : Expr) (clauses : List Clause)

structure Clause where
  pattern : Pattern
  body : Expr

end

instance : Inhabited Pattern := ⟨.wildcard⟩

instance : Inhabited Expr := ⟨.list []⟩

end CaseScript
