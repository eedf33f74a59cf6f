import CaseScript.Text.CodePoint

/-!
# Tags

The tag of an object says which kind of node the object describes.
-/

namespace CaseScript

inductive Expr.Tag where
  | int
  | string
  | bool
  | var
  | list
  | binop
  | letIn
  | apply
  | lambda
  | cases
  deriving DecidableEq, Repr

inductive Pattern.Tag where
  | wildcard
  | var
  | int
  | string
  | bool
  | list
  | listTail
  deriving DecidableEq, Repr

namespace Expr.Tag

def name : Tag → String
  | int => "int"
  | string => "string"
  | bool => "bool"
  | var => "var"
  | list => "list"
  | binop => "binop"
  | letIn => "let"
  | apply => "apply"
  | lambda => "lambda"
  | cases => "match"

def all : List Tag := [int, string, bool, var, list, binop, letIn, apply, lambda, cases]

def ofText? (t : Text) : Option Tag := all.find? (Text.ofString ·.name = t)

@[simp] theorem ofText?_name (tag : Tag) : ofText? (Text.ofString tag.name) = some tag := by
  cases tag <;> decide +kernel

end Expr.Tag

namespace Pattern.Tag

def name : Tag → String
  | wildcard => "wildcard"
  | var => "var"
  | int => "int"
  | string => "string"
  | bool => "bool"
  | list => "list"
  | listTail => "list_tail"

def all : List Tag := [wildcard, var, int, string, bool, list, listTail]

def ofText? (t : Text) : Option Tag := all.find? (Text.ofString ·.name = t)

@[simp] theorem ofText?_name (tag : Tag) : ofText? (Text.ofString tag.name) = some tag := by
  cases tag <;> decide +kernel

end Pattern.Tag
end CaseScript
