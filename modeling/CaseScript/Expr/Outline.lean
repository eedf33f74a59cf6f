import CaseScript.Expr.Basic
import CaseScript.Text.Quoted

/-!
# Outlines of trees

An outline names every node of a tree and its fields. It is the common form in which trees are
listed.
-/

namespace CaseScript

mutual

structure Outline where
  label : String
  fields : List (String × OutlineValue)

/-- The value of a field. -/
inductive OutlineValue where
  | int (value : Int)
  | text (value : Text)
  | bool (value : Bool)
  | texts (values : List Text)
  | node (value : Outline)
  | nodes (values : List Outline)

end

def Literal.outlineValue : Literal → OutlineValue
  | int value => .int value
  | string value => .text value
  | bool value => .bool value

namespace Pattern

def literalLabel : Literal → String
  | .int _ => "IntPattern"
  | .string _ => "StringPattern"
  | .bool _ => "BoolPattern"

mutual

def outline : Pattern → Outline
  | literal value => ⟨literalLabel value, [("value", value.outlineValue)]⟩
  | var name => ⟨"VariablePattern", [("name", .text name)]⟩
  | wildcard => ⟨"WildcardPattern", []⟩
  | list items => ⟨"ListPattern", [("items", .nodes (outlines items))]⟩
  | listTail items tail =>
    ⟨"ListTailPattern", [("items", .nodes (outlines items)), ("tail", .text tail)]⟩

def outlines : List Pattern → List Outline
  | [] => []
  | p :: rest => p.outline :: outlines rest

end

end Pattern

namespace Expr

def literalLabel : Literal → String
  | .int _ => "IntLit"
  | .string _ => "StringLit"
  | .bool _ => "BoolLit"

mutual

def outline : Expr → Outline
  | literal value => ⟨literalLabel value, [("value", value.outlineValue)]⟩
  | var name => ⟨"VarExpr", [("name", .text name)]⟩
  | list items => ⟨"ListExpr", [("items", .nodes (outlines items))]⟩
  | binop op left right =>
    ⟨"BinopExpr", [("op", .text op), ("left", .node left.outline), ("right", .node right.outline)]⟩
  | letIn name value body =>
    ⟨"LetExpr",
      [("name", .text name), ("value", .node value.outline), ("body", .node body.outline)]⟩
  | apply function args =>
    ⟨"ApplyExpr", [("function", .node function.outline), ("args", .nodes (outlines args))]⟩
  | lambda params body =>
    ⟨"LambdaExpr", [("params", .texts params), ("body", .node body.outline)]⟩
  | cases subject clauses =>
    ⟨"MatchExpr",
      [("subject", .node subject.outline), ("clauses", .nodes (clauseOutlines clauses))]⟩

def outlines : List Expr → List Outline
  | [] => []
  | e :: rest => e.outline :: outlines rest

def clauseOutlines : List Clause → List Outline
  | [] => []
  | ⟨pattern, body⟩ :: rest =>
    ⟨"MatchClause", [("pattern", .node pattern.outline), ("body", .node body.outline)]⟩ ::
      clauseOutlines rest

end

end Expr

namespace Outline

def indent (depth : Nat) (s : String) : String :=
  String.ofList (List.replicate (2 * depth) ' ') ++ s

def boolWord (b : Bool) : String := if b then "True" else "False"

mutual

/-- The listing of a tree, one line for the node and one or more for each of its fields. -/
def lines (depth : Nat) : Outline → List String
  | ⟨label, fields⟩ => indent depth label :: fieldLines (depth + 1) fields

def fieldLines (depth : Nat) : List (String × OutlineValue) → List String
  | [] => []
  | (name, value) :: rest => valueLines depth name value ++ fieldLines depth rest

/-- Nodes stand on the lines below the name of their field, everything else on the same line. -/
def valueLines (depth : Nat) (name : String) : OutlineValue → List String
  | .int value => [indent depth (name ++ ": " ++ toString value)]
  | .text value => [indent depth (name ++ ": " ++ Text.quoted value)]
  | .bool value => [indent depth (name ++ ": " ++ boolWord value)]
  | .texts values => [indent depth (name ++ ": " ++ Text.quotedList values)]
  | .node value => indent depth (name ++ ":") :: lines (depth + 1) value
  | .nodes values =>
    if values.isEmpty then [indent depth (name ++ ": []")]
    else indent depth (name ++ ":") :: linesOfAll (depth + 1) values

def linesOfAll (depth : Nat) : List Outline → List String
  | [] => []
  | node :: rest => lines depth node ++ linesOfAll depth rest

end

end Outline
end CaseScript
