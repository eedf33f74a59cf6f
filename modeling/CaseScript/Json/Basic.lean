import CaseScript.Text.CodePoint

/-!
# JSON values

Integers are kept exactly. Of a number with a fraction or an exponent only the kind is kept, since
no input tree may hold one.
-/

namespace CaseScript

inductive Json where
  | null
  | bool (value : Bool)
  | int (value : Int)
  | real
  | string (value : Text)
  | array (items : List Json)
  | object (fields : List (Text × Json))
  deriving Inhabited

namespace Json

inductive Kind where
  | null
  | boolean
  | integer
  | real
  | string
  | array
  | object
  deriving DecidableEq, Repr

namespace Kind

/-- The short name by which a message reports what it found. -/
def found : Kind → String
  | null => "NoneType"
  | boolean => "bool"
  | integer => "int"
  | real => "float"
  | string => "str"
  | array => "list"
  | object => "dict"

/-- The phrase by which a message asks for a value. -/
def wanted : Kind → String
  | null => "null"
  | boolean => "a boolean"
  | integer => "an integer"
  | real => "a number"
  | string => "a string"
  | array => "a list"
  | object => "an object"

end Kind

def kind : Json → Kind
  | null => .null
  | bool _ => .boolean
  | int _ => .integer
  | real => .real
  | string _ => .string
  | array _ => .array
  | object _ => .object

def int? : Json → Option Int
  | int n => some n
  | _ => none

def bool? : Json → Option Bool
  | bool b => some b
  | _ => none

def string? : Json → Option Text
  | string s => some s
  | _ => none

def array? : Json → Option (List Json)
  | array items => some items
  | _ => none

/-- The value of the first field of that name. -/
def lookup (name : String) (fields : List (Text × Json)) : Option Json :=
  List.lookup (Text.ofString name) fields

@[simp] theorem int?_eq_some {json : Json} {n : Int} : json.int? = some n ↔ json = int n := by
  cases json <;> simp [int?]

@[simp] theorem bool?_eq_some {json : Json} {b : Bool} : json.bool? = some b ↔ json = bool b := by
  cases json <;> simp [bool?]

@[simp] theorem string?_eq_some {json : Json} {s : Text} :
    json.string? = some s ↔ json = string s := by
  cases json <;> simp [string?]

@[simp] theorem array?_eq_some {json : Json} {items : List Json} :
    json.array? = some items ↔ json = array items := by
  cases json <;> simp [array?]

end Json
end CaseScript
