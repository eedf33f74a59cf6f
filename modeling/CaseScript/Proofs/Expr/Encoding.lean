import CaseScript.Expr.Source
import CaseScript.Proofs.Expr.Description

/-!
# Trees as JSON values

The JSON value that a tree is written as: its objects have the fields that are read and no others. A
tree is read back from every value that describes it, and from this value if all operators in it can
be read.
-/

namespace CaseScript

/-! ## Writing trees -/

/-- An object with a tag. -/
def Json.node (tag : String) (fields : List (String × Json)) : Json :=
  .object ((Text.ofString "type", .string (Text.ofString tag)) ::
    fields.map fun field => (Text.ofString field.1, field.2))

/-- The names of fields are compared as strings. -/
@[simp] theorem Json.lookup_ofString (name key : String) (value : Json)
    (rest : List (Text × Json)) :
    lookup name ((Text.ofString key, value) :: rest) =
      if name = key then some value else lookup name rest := by
  rw [lookup_cons]
  by_cases h : name = key
  · rw [if_pos h, if_pos (congrArg _ h)]
  · rw [if_neg h, if_neg fun heq => h (Text.ofString_injective heq)]

namespace Pattern

mutual

def json : Pattern → Json
  | literal value => .node value.tag [("value", value.json)]
  | var name => .node "var" [("name", .string name)]
  | wildcard => .node "wildcard" []
  | list items => .node "list" [("items", .array (jsons items))]
  | listTail items tail =>
    .node "list_tail" [("items", .array (jsons items)), ("tail", .string tail)]

def jsons : List Pattern → List Json
  | [] => []
  | p :: rest => p.json :: jsons rest

end

end Pattern

namespace Expr

mutual

def json : Expr → Json
  | literal value => .node value.tag [("value", value.json)]
  | var name => .node "var" [("name", .string name)]
  | list items => .node "list" [("items", .array (jsons items))]
  | binop op left right =>
    .node "binop" [("op", .string op), ("left", left.json), ("right", right.json)]
  | letIn name value body =>
    .node "let" [("name", .string name), ("value", value.json), ("body", body.json)]
  | apply function args =>
    .node "apply" [("function", function.json), ("args", .array (jsons args))]
  | lambda params body =>
    .node "lambda" [("params", .array (params.map .string)), ("body", body.json)]
  | cases subject clauses =>
    .node "match" [("subject", subject.json), ("clauses", .array (clauseJsons clauses))]

def jsons : List Expr → List Json
  | [] => []
  | item :: rest => item.json :: jsons rest

def clauseJsons : List Clause → List Json
  | [] => []
  | ⟨pattern, body⟩ :: rest =>
    .object [(Text.ofString "pattern", pattern.json), (Text.ofString "body", body.json)] ::
      clauseJsons rest

end

mutual

/-- The operators in an expression, those in clauses that are never reached among them. -/
def operators : Expr → List Text
  | literal _ | var _ => []
  | list items => itemOperators items
  | binop op left right => op :: (left.operators ++ right.operators)
  | letIn _ value body => value.operators ++ body.operators
  | apply function args => function.operators ++ itemOperators args
  | lambda _ body => body.operators
  | cases subject clauses => subject.operators ++ clauseOperators clauses

def itemOperators : List Expr → List Text
  | [] => []
  | item :: rest => item.operators ++ itemOperators rest

def clauseOperators : List Clause → List Text
  | [] => []
  | ⟨_, body⟩ :: rest => body.operators ++ clauseOperators rest

end

/-- Can all operators in an expression be read? -/
def Readable (e : Expr) : Prop := ∀ op ∈ e.operators, op.isOperator = true

end Expr

/-! ## What is written describes the tree -/

mutual

theorem Pattern.described_json (p : Pattern) : p.Described p.json := by
  cases p with
  | literal value => exact .literal rfl (by simp)
  | var name => exact .var rfl (by simp)
  | wildcard => exact .wildcard rfl
  | list items => exact .list rfl (by simp) (Pattern.described_jsons items)
  | listTail items tail => exact .listTail rfl (by simp) (Pattern.described_jsons items) (by simp)

theorem Pattern.described_jsons (items : List Pattern) :
    List.Forall₂ (fun json p => Pattern.Described json p) (Pattern.jsons items) items := by
  cases items with
  | nil => exact .nil
  | cons p rest => exact .cons (Pattern.described_json p) (Pattern.described_jsons rest)

end

mutual

theorem Expr.described_json {e : Expr} (h : ∀ op ∈ e.operators, op.isOperator = true) :
    e.Described e.json := by
  cases e with
  | literal value => exact .literal rfl (by simp)
  | var name => exact .var rfl (by simp)
  | list items => exact .list rfl (by simp) (Expr.described_jsons h)
  | binop op left right =>
    rw [Expr.operators, List.forall_mem_cons, List.forall_mem_append] at h
    have hleft := Expr.described_json h.2.1
    have hright := Expr.described_json h.2.2
    exact .binop rfl (by simp) h.1 (by simp) hleft (by simp) hright
  | letIn name value body =>
    rw [Expr.operators, List.forall_mem_append] at h
    have hvalue := Expr.described_json h.1
    have hbody := Expr.described_json h.2
    exact .letIn rfl (by simp) (by simp) hvalue (by simp) hbody
  | apply function args =>
    rw [Expr.operators, List.forall_mem_append] at h
    have hfunction := Expr.described_json h.1
    exact .apply rfl (by simp) hfunction (by simp) (Expr.described_jsons h.2)
  | lambda params body =>
    have hbody : body.Described body.json := Expr.described_json h
    exact .lambda rfl (by simp) (by simp) hbody
  | cases subject clauses =>
    rw [Expr.operators, List.forall_mem_append] at h
    have hsubject := Expr.described_json h.1
    exact .cases rfl (by simp) hsubject (by simp) (Expr.described_clauseJsons h.2)

theorem Expr.described_jsons {items : List Expr}
    (h : ∀ op ∈ Expr.itemOperators items, op.isOperator = true) :
    List.Forall₂ (fun json e => Expr.Described json e) (Expr.jsons items) items := by
  cases items with
  | nil => exact .nil
  | cons item rest =>
    rw [Expr.itemOperators, List.forall_mem_append] at h
    exact .cons (Expr.described_json h.1) (Expr.described_jsons h.2)

theorem Expr.described_clauseJsons {clauses : List Clause}
    (h : ∀ op ∈ Expr.clauseOperators clauses, op.isOperator = true) :
    List.Forall₂ (fun json clause => Clause.Described json clause) (Expr.clauseJsons clauses)
      clauses := by
  cases clauses with
  | nil => exact .nil
  | cons clause rest =>
    obtain ⟨pattern, body⟩ := clause
    rw [Expr.clauseOperators, List.forall_mem_append] at h
    refine .cons ?_ (Expr.described_clauseJsons h.2)
    exact .mk (by simp) pattern.described_json (by simp) (Expr.described_json h.1)

end

mutual

theorem Expr.readable_of_described {json : Json} {e : Expr} (h : e.Described json) :
    e.Readable := by
  unfold Expr.Readable
  cases e with
  | literal value => exact List.forall_mem_nil _
  | var name => exact List.forall_mem_nil _
  | list items =>
    cases h with
    | list _ _ described => exact Expr.readable_of_itemsDescribed described
  | binop op left right =>
    cases h with
    | binop _ _ valid _ left_described _ right_described =>
      rw [Expr.operators, List.forall_mem_cons, List.forall_mem_append]
      exact ⟨valid, Expr.readable_of_described left_described,
        Expr.readable_of_described right_described⟩
  | letIn name value body =>
    cases h with
    | letIn _ _ _ value_described _ body_described =>
      exact List.forall_mem_append.mpr ⟨Expr.readable_of_described value_described,
        Expr.readable_of_described body_described⟩
  | apply function args =>
    cases h with
    | apply _ _ function_described _ described =>
      exact List.forall_mem_append.mpr ⟨Expr.readable_of_described function_described,
        Expr.readable_of_itemsDescribed described⟩
  | lambda params body =>
    cases h with
    | lambda _ _ _ body_described =>
      rw [Expr.operators]
      exact Expr.readable_of_described body_described
  | cases subject clauses =>
    cases h with
    | cases _ _ subject_described _ described =>
      exact List.forall_mem_append.mpr ⟨Expr.readable_of_described subject_described,
        Expr.readable_of_clausesDescribed described⟩

theorem Expr.readable_of_itemsDescribed {values : List Json} {items : List Expr}
    (h : List.Forall₂ (fun json e => Expr.Described json e) values items) :
    ∀ op ∈ Expr.itemOperators items, op.isOperator = true := by
  cases items with
  | nil => exact List.forall_mem_nil _
  | cons item rest =>
    cases h with
    | cons described more =>
      exact List.forall_mem_append.mpr ⟨Expr.readable_of_described described,
        Expr.readable_of_itemsDescribed more⟩

theorem Expr.readable_of_clausesDescribed {values : List Json} {clauses : List Clause}
    (h : List.Forall₂ (fun json clause => Clause.Described json clause) values clauses) :
    ∀ op ∈ Expr.clauseOperators clauses, op.isOperator = true := by
  cases clauses with
  | nil => exact List.forall_mem_nil _
  | cons clause rest =>
    obtain ⟨pattern, body⟩ := clause
    cases h with
    | cons described more =>
      cases described with
      | mk _ _ _ body_described =>
        exact List.forall_mem_append.mpr ⟨Expr.readable_of_described body_described,
          Expr.readable_of_clausesDescribed more⟩

end

/-! ## Nodes by their tags -/

open Decoded

/-- The pattern that the fields of an object with this tag describe. -/
def Pattern.ofFields (trail : Trail) (fields : List (Text × Json)) : Pattern.Tag → Decoded Pattern
  | .wildcard => return wildcard
  | .var => return var (← string trail "name" fields)
  | .int => return literal (.int (← int trail "value" fields))
  | .string => return literal (.string (← string trail "value" fields))
  | .bool => return literal (.bool (← bool trail "value" fields))
  | .list => return list (← itemsOfJson trail "items" fields)
  | .listTail => do
    let items ← itemsOfJson trail "items" fields
    return listTail items (← string trail "tail" fields)

/-- The expression that the fields of an object with this tag describe. -/
def Expr.ofFields (trail : Trail) (fields : List (Text × Json)) : Expr.Tag → Decoded Expr
  | .int => return literal (.int (← int trail "value" fields))
  | .string => return literal (.string (← string trail "value" fields))
  | .bool => return literal (.bool (← bool trail "value" fields))
  | .var => return var (← string trail "name" fields)
  | .list => return list (← itemsOfJson trail "items" fields)
  | .binop => do
    let op ← operator trail fields
    let left ← fieldOfJson trail "left" fields
    return binop op left (← fieldOfJson trail "right" fields)
  | .letIn => do
    let name ← string trail "name" fields
    let value ← fieldOfJson trail "value" fields
    return letIn name value (← fieldOfJson trail "body" fields)
  | .apply => do
    let function ← fieldOfJson trail "function" fields
    return apply function (← itemsOfJson trail "args" fields)
  | .lambda => do
    let params ← strings trail "params" fields
    return lambda params (← fieldOfJson trail "body" fields)
  | .cases => do
    let subject ← fieldOfJson trail "subject" fields
    return cases subject (← clausesOfJson trail "clauses" fields)

section Tagged

variable {trail : Trail} {fields : List (Text × Json)}

theorem tag_of_tagged {name : String} (h : Json.Tagged name fields) :
    tag trail fields = .ok (Text.ofString name) := by
  unfold tag
  rw [h]
  rfl

theorem Pattern.ofJson_object (trail : Trail) (fields : List (Text × Json)) :
    Pattern.ofJson trail (.object fields) = tag trail fields >>= fun text =>
      (Tag.ofText? text).elim (fault trail (.unknownPattern text))
        (Pattern.ofFields trail fields) := by
  rw [Pattern.ofJson]
  refine bind_congr fun text => ?_
  cases Tag.ofText? text with
  | none => rfl
  | some kind => cases kind <;> rfl

theorem Expr.ofJson_object (trail : Trail) (fields : List (Text × Json)) :
    Expr.ofJson trail (.object fields) = tag trail fields >>= fun text =>
      (Tag.ofText? text).elim (fault trail (.unknownExpr text)) (Expr.ofFields trail fields) := by
  rw [Expr.ofJson]
  refine bind_congr fun text => ?_
  cases Tag.ofText? text with
  | none => rfl
  | some kind => cases kind <;> rfl

theorem Pattern.ofJson_of_tagged (kind : Pattern.Tag) (h : Json.Tagged kind.name fields) :
    Pattern.ofJson trail (.object fields) = Pattern.ofFields trail fields kind := by
  rw [Pattern.ofJson_object, tag_of_tagged h]
  exact congrArg (Option.elim · _ _) (Tag.ofText?_name kind)

theorem Expr.ofJson_of_tagged (kind : Expr.Tag) (h : Json.Tagged kind.name fields) :
    Expr.ofJson trail (.object fields) = Expr.ofFields trail fields kind := by
  rw [Expr.ofJson_object, tag_of_tagged h]
  exact congrArg (Option.elim · _ _) (Tag.ofText?_name kind)

end Tagged

/-! ## What is described is read back -/

namespace Decoded

variable {α : Type} {trail : Trail} {fields : List (Text × Json)} {name : String}

theorem field_of_lookup {kind : Json.Kind} {read? : Json → Option α} {value : Json} {a : α}
    (hfound : Json.lookup name fields = some value) (hread : read? value = some a) :
    field kind read? trail name fields = .ok a := by
  unfold field
  rw [hfound]
  dsimp only
  rw [hread]
  rfl

theorem string_of_lookup {s : Text} (h : Json.lookup name fields = some (.string s)) :
    string trail name fields = .ok s := field_of_lookup h rfl

theorem int_of_lookup {n : Int} (h : Json.lookup name fields = some (.int n)) :
    int trail name fields = .ok n := field_of_lookup h rfl

theorem bool_of_lookup {b : Bool} (h : Json.lookup name fields = some (.bool b)) :
    bool trail name fields = .ok b := field_of_lookup h rfl

theorem entries_map_string (index : Nat) (all : List Text) :
    entries trail name index (all.map .string) = .ok all := by
  induction all generalizing index with
  | nil => rfl
  | cons s rest ih =>
    rw [List.map_cons, entries, ih]
    rfl

theorem strings_of_lookup {all : List Text}
    (h : Json.lookup name fields = some (.array (all.map .string))) :
    strings trail name fields = .ok all := by
  have hlist : list trail name fields = .ok (all.map .string) := field_of_lookup h rfl
  rw [strings, hlist]
  exact entries_map_string 0 all

theorem operator_of_lookup {op : Text} (h : Json.lookup "op" fields = some (.string op))
    (valid : op.isOperator = true) : operator trail fields = .ok op := by
  rw [operator, string_of_lookup h]
  exact if_pos valid

end Decoded

mutual

theorem Pattern.ofJson_of_described {trail : Trail} {json : Json} {p : Pattern}
    (h : p.Described json) : Pattern.ofJson trail json = .ok p := by
  cases p with
  | literal value =>
    cases h with
    | literal tagged value_found =>
      cases value with
      | int n =>
        rw [Pattern.ofJson_of_tagged .int tagged, Pattern.ofFields,
          int_of_lookup value_found]
        rfl
      | string s =>
        rw [Pattern.ofJson_of_tagged .string tagged, Pattern.ofFields,
          string_of_lookup value_found]
        rfl
      | bool b =>
        rw [Pattern.ofJson_of_tagged .bool tagged, Pattern.ofFields,
          bool_of_lookup value_found]
        rfl
  | var name =>
    cases h with
    | var tagged name_found =>
      rw [Pattern.ofJson_of_tagged .var tagged, Pattern.ofFields,
        string_of_lookup name_found]
      rfl
  | wildcard =>
    cases h with
    | wildcard tagged => exact Pattern.ofJson_of_tagged .wildcard tagged
  | list items =>
    cases h with
    | list tagged items_found described =>
      rw [Pattern.ofJson_of_tagged .list tagged, Pattern.ofFields,
        Pattern.itemsOfJson_eq, items_found, Option.elim, listField,
        Pattern.listOfJson_of_described described]
      rfl
  | listTail items tail =>
    cases h with
    | listTail tagged items_found described tail_found =>
      rw [Pattern.ofJson_of_tagged .listTail tagged, Pattern.ofFields,
        Pattern.itemsOfJson_eq, items_found, Option.elim, listField,
        Pattern.listOfJson_of_described described, string_of_lookup tail_found]
      rfl

theorem Pattern.listOfJson_of_described {trail : Trail} {index : Nat} {values : List Json}
    {items : List Pattern}
    (h : List.Forall₂ (fun json p => Pattern.Described json p) values items) :
    Pattern.listOfJson trail index values = .ok items := by
  cases items with
  | nil =>
    cases h
    rw [Pattern.listOfJson]
    rfl
  | cons p rest =>
    cases h with
    | cons described more =>
      rw [Pattern.listOfJson, Pattern.ofJson_of_described described,
        Pattern.listOfJson_of_described more]
      rfl

end

theorem Pattern.fieldOfJson_of_described (trail : Trail) {name : String}
    {fields : List (Text × Json)} {json : Json} {p : Pattern}
    (hfound : Json.lookup name fields = some json) (h : p.Described json) :
    Pattern.fieldOfJson trail name fields = .ok p := by
  have hread : Pattern.ofJson (trail.field name) json = .ok p := Pattern.ofJson_of_described h
  unfold Pattern.fieldOfJson
  rw [hfound]
  cases h <;> exact hread

theorem Expr.Described.kind {json : Json} {e : Expr} (h : e.Described json) :
    json.kind = .object := by
  cases h <;> rfl

section Parts

variable (trail : Trail) {name : String} {fields : List (Text × Json)}

theorem Expr.fieldOfJson_of_lookup {json : Json} {e : Expr}
    (hfound : Json.lookup name fields = some json) (h : e.Described json)
    (hread : Expr.ofJson (trail.field name) json = .ok e) :
    Expr.fieldOfJson trail name fields = .ok e := by
  rw [Expr.fieldOfJson_eq, hfound, Option.elim, if_pos h.kind]
  exact hread

theorem Expr.itemsOfJson_of_lookup {values : List Json} {items : List Expr}
    (hfound : Json.lookup name fields = some (.array values))
    (hread : Expr.listOfJson (trail.field name) 0 values = .ok items) :
    Expr.itemsOfJson trail name fields = .ok items := by
  rw [Expr.itemsOfJson_eq, hfound, Option.elim, listField]
  exact hread

end Parts

mutual

theorem Expr.ofJson_of_described {trail : Trail} {json : Json} {e : Expr} (h : e.Described json) :
    Expr.ofJson trail json = .ok e := by
  cases e with
  | literal value =>
    cases h with
    | literal tagged value_found =>
      cases value with
      | int n =>
        rw [Expr.ofJson_of_tagged .int tagged, Expr.ofFields, int_of_lookup value_found]
        rfl
      | string s =>
        rw [Expr.ofJson_of_tagged .string tagged, Expr.ofFields,
          string_of_lookup value_found]
        rfl
      | bool b =>
        rw [Expr.ofJson_of_tagged .bool tagged, Expr.ofFields, bool_of_lookup value_found]
        rfl
  | var name =>
    cases h with
    | var tagged name_found =>
      rw [Expr.ofJson_of_tagged .var tagged, Expr.ofFields, string_of_lookup name_found]
      rfl
  | list items =>
    cases h with
    | list tagged items_found described =>
      have hitems := Expr.itemsOfJson_of_lookup trail items_found
        (Expr.listOfJson_of_described described)
      rw [Expr.ofJson_of_tagged .list tagged, Expr.ofFields, hitems]
      rfl
  | binop op left right =>
    cases h with
    | binop tagged op_found valid left_found left_described right_found right_described =>
      have hleft := Expr.fieldOfJson_of_lookup trail left_found left_described
        (Expr.ofJson_of_described left_described)
      have hright := Expr.fieldOfJson_of_lookup trail right_found right_described
        (Expr.ofJson_of_described right_described)
      rw [Expr.ofJson_of_tagged .binop tagged, Expr.ofFields, operator_of_lookup op_found valid,
        hleft, hright]
      rfl
  | letIn name value body =>
    cases h with
    | letIn tagged name_found value_found value_described body_found body_described =>
      have hvalue := Expr.fieldOfJson_of_lookup trail value_found value_described
        (Expr.ofJson_of_described value_described)
      have hbody := Expr.fieldOfJson_of_lookup trail body_found body_described
        (Expr.ofJson_of_described body_described)
      rw [Expr.ofJson_of_tagged .letIn tagged, Expr.ofFields, string_of_lookup name_found, hvalue,
        hbody]
      rfl
  | apply function args =>
    cases h with
    | apply tagged function_found function_described args_found described =>
      have hfunction := Expr.fieldOfJson_of_lookup trail function_found function_described
        (Expr.ofJson_of_described function_described)
      have hargs := Expr.itemsOfJson_of_lookup trail args_found
        (Expr.listOfJson_of_described described)
      rw [Expr.ofJson_of_tagged .apply tagged, Expr.ofFields, hfunction, hargs]
      rfl
  | lambda params body =>
    cases h with
    | lambda tagged params_found body_found body_described =>
      have hbody := Expr.fieldOfJson_of_lookup trail body_found body_described
        (Expr.ofJson_of_described body_described)
      rw [Expr.ofJson_of_tagged .lambda tagged, Expr.ofFields, strings_of_lookup params_found,
        hbody]
      rfl
  | cases subject clauses =>
    cases h with
    | cases tagged subject_found subject_described clauses_found described =>
      have hsubject := Expr.fieldOfJson_of_lookup trail subject_found subject_described
        (Expr.ofJson_of_described subject_described)
      rw [Expr.ofJson_of_tagged .cases tagged, Expr.ofFields, hsubject, Expr.clausesOfJson_eq,
        clauses_found, Option.elim, listField, Expr.clauseListOfJson_of_described described]
      rfl

theorem Expr.listOfJson_of_described {trail : Trail} {index : Nat} {values : List Json}
    {items : List Expr} (h : List.Forall₂ (fun json e => Expr.Described json e) values items) :
    Expr.listOfJson trail index values = .ok items := by
  cases items with
  | nil =>
    cases h
    rw [Expr.listOfJson]
    rfl
  | cons item rest =>
    cases h with
    | cons described more =>
      rw [Expr.listOfJson, Expr.ofJson_of_described described, Expr.listOfJson_of_described more]
      rfl

theorem Expr.clauseListOfJson_of_described {trail : Trail} {index : Nat} {values : List Json}
    {clauses : List Clause}
    (h : List.Forall₂ (fun json clause => Clause.Described json clause) values clauses) :
    Expr.clauseListOfJson trail index values = .ok clauses := by
  cases clauses with
  | nil =>
    cases h
    rw [Expr.clauseListOfJson]
    rfl
  | cons clause rest =>
    obtain ⟨pattern, body⟩ := clause
    cases h with
    | cons described more =>
      cases described with
      | mk pattern_found pattern_described body_found body_described =>
        let place := trail.item index
        have hpattern := Pattern.fieldOfJson_of_described place pattern_found pattern_described
        have hbody := Expr.fieldOfJson_of_lookup place body_found body_described
          (Expr.ofJson_of_described body_described)
        rw [Expr.clauseListOfJson, Expr.clauseOfJson, hpattern, hbody,
          Expr.clauseListOfJson_of_described more]
        rfl

end

/-! ## Reading back what was written -/

theorem Pattern.decode_json (p : Pattern) : Pattern.decode p.json = .ok p :=
  Pattern.ofJson_of_described p.described_json

/-- No tree with an operator that cannot be read is read from any value. -/
theorem Expr.decode_json_iff {e : Expr} : Expr.decode e.json = .ok e ↔ e.Readable := by
  constructor
  · intro h
    exact Expr.readable_of_described (Expr.described_of_ofJson h)
  · intro h
    exact Expr.ofJson_of_described (Expr.described_json h)

end CaseScript
