import CaseScript.Proofs.Expr.Fields
import Mathlib.Data.List.Forall2

/-!
# JSON values that describe trees

The fields that a JSON value must have to describe a pattern or an expression. Where the value
stands plays no part in it. Whatever is read from a value is described by it.
-/

namespace CaseScript

/-- Is this the tag of an object with these fields? -/
def Json.Tagged (tag : String) (fields : List (Text × Json)) : Prop :=
  lookup "type" fields = some (.string (Text.ofString tag))

namespace Literal

def tag : Literal → String
  | int _ => "int"
  | string _ => "string"
  | bool _ => "bool"

def json : Literal → Json
  | int value => .int value
  | string value => .string value
  | bool value => .bool value

end Literal

inductive Pattern.Described : Json → Pattern → Prop
  | literal {fields : List (Text × Json)} {value : Literal} (tagged : Json.Tagged value.tag fields)
    (value_found : Json.lookup "value" fields = some value.json) :
    Described (.object fields) (.literal value)
  | var {fields : List (Text × Json)} {name : Text} (tagged : Json.Tagged "var" fields)
    (name_found : Json.lookup "name" fields = some (.string name)) :
    Described (.object fields) (.var name)
  | wildcard {fields : List (Text × Json)} (tagged : Json.Tagged "wildcard" fields) :
    Described (.object fields) .wildcard
  | list {fields : List (Text × Json)} {values : List Json} {items : List Pattern}
    (tagged : Json.Tagged "list" fields)
    (items_found : Json.lookup "items" fields = some (.array values))
    (described : List.Forall₂ Described values items) : Described (.object fields) (.list items)
  | listTail {fields : List (Text × Json)} {values : List Json} {items : List Pattern} {tail : Text}
    (tagged : Json.Tagged "list_tail" fields)
    (items_found : Json.lookup "items" fields = some (.array values))
    (described : List.Forall₂ Described values items)
    (tail_found : Json.lookup "tail" fields = some (.string tail)) :
    Described (.object fields) (.listTail items tail)

mutual

inductive Expr.Described : Json → Expr → Prop
  | literal {fields : List (Text × Json)} {value : Literal} (tagged : Json.Tagged value.tag fields)
    (value_found : Json.lookup "value" fields = some value.json) :
    Expr.Described (.object fields) (.literal value)
  | var {fields : List (Text × Json)} {name : Text} (tagged : Json.Tagged "var" fields)
    (name_found : Json.lookup "name" fields = some (.string name)) :
    Expr.Described (.object fields) (.var name)
  | list {fields : List (Text × Json)} {values : List Json} {items : List Expr}
    (tagged : Json.Tagged "list" fields)
    (items_found : Json.lookup "items" fields = some (.array values))
    (described : List.Forall₂ Expr.Described values items) :
    Expr.Described (.object fields) (.list items)
  | binop {fields : List (Text × Json)} {op : Text} {leftJson rightJson : Json} {left right : Expr}
    (tagged : Json.Tagged "binop" fields)
    (op_found : Json.lookup "op" fields = some (.string op)) (valid : op.isOperator = true)
    (left_found : Json.lookup "left" fields = some leftJson)
    (left_described : Expr.Described leftJson left)
    (right_found : Json.lookup "right" fields = some rightJson)
    (right_described : Expr.Described rightJson right) :
    Expr.Described (.object fields) (.binop op left right)
  | letIn {fields : List (Text × Json)} {name : Text} {valueJson bodyJson : Json}
    {value body : Expr} (tagged : Json.Tagged "let" fields)
    (name_found : Json.lookup "name" fields = some (.string name))
    (value_found : Json.lookup "value" fields = some valueJson)
    (value_described : Expr.Described valueJson value)
    (body_found : Json.lookup "body" fields = some bodyJson)
    (body_described : Expr.Described bodyJson body) :
    Expr.Described (.object fields) (.letIn name value body)
  | apply {fields : List (Text × Json)} {functionJson : Json} {values : List Json} {function : Expr}
    {args : List Expr} (tagged : Json.Tagged "apply" fields)
    (function_found : Json.lookup "function" fields = some functionJson)
    (function_described : Expr.Described functionJson function)
    (args_found : Json.lookup "args" fields = some (.array values))
    (described : List.Forall₂ Expr.Described values args) :
    Expr.Described (.object fields) (.apply function args)
  | lambda {fields : List (Text × Json)} {params : List Text} {bodyJson : Json} {body : Expr}
    (tagged : Json.Tagged "lambda" fields)
    (params_found : Json.lookup "params" fields = some (.array (params.map .string)))
    (body_found : Json.lookup "body" fields = some bodyJson)
    (body_described : Expr.Described bodyJson body) :
    Expr.Described (.object fields) (.lambda params body)
  | cases {fields : List (Text × Json)} {subjectJson : Json} {values : List Json} {subject : Expr}
    {clauses : List Clause} (tagged : Json.Tagged "match" fields)
    (subject_found : Json.lookup "subject" fields = some subjectJson)
    (subject_described : Expr.Described subjectJson subject)
    (clauses_found : Json.lookup "clauses" fields = some (.array values))
    (described : List.Forall₂ Clause.Described values clauses) :
    Expr.Described (.object fields) (.cases subject clauses)

inductive Clause.Described : Json → Clause → Prop
  | mk {fields : List (Text × Json)} {patternJson bodyJson : Json} {pattern : Pattern} {body : Expr}
    (pattern_found : Json.lookup "pattern" fields = some patternJson)
    (pattern_described : pattern.Described patternJson)
    (body_found : Json.lookup "body" fields = some bodyJson)
    (body_described : body.Described bodyJson) : Clause.Described (.object fields) ⟨pattern, body⟩

end

theorem Pattern.Tag.eq_name_of_ofText? {text : Text} {tag : Tag} (h : ofText? text = some tag) :
    text = Text.ofString tag.name := by
  have hfound := List.find?_some h
  exact (of_decide_eq_true hfound).symm

theorem Expr.Tag.eq_name_of_ofText? {text : Text} {tag : Tag} (h : ofText? text = some tag) :
    text = Text.ofString tag.name := by
  have hfound := List.find?_some h
  exact (of_decide_eq_true hfound).symm

/-! ## What is read is described -/

open Decoded

mutual

theorem Pattern.described_of_ofJson {trail : Trail} {json : Json} {p : Pattern}
    (h : Pattern.ofJson trail json = .ok p) : p.Described json := by
  match json with
  | .object fields =>
    rw [Pattern.ofJson] at h
    obtain ⟨text, htext, h⟩ := except_bind_eq_ok.mp h
    cases hkind : Tag.ofText? text with
    | none =>
      rw [hkind] at h
      cases h
    | some kind =>
      have tagged : Json.Tagged kind.name fields := by
        rw [Json.Tagged, ← Tag.eq_name_of_ofText? hkind]
        exact tag_eq_ok htext
      rw [hkind] at h
      cases kind with
      | wildcard =>
        cases h
        exact .wildcard tagged
      | var =>
        obtain ⟨name, hname, h⟩ := except_bind_eq_ok.mp h
        cases h
        exact .var tagged (string_eq_ok hname)
      | int =>
        obtain ⟨n, hn, h⟩ := except_bind_eq_ok.mp h
        cases h
        exact .literal tagged (int_eq_ok hn)
      | string =>
        obtain ⟨s, hs, h⟩ := except_bind_eq_ok.mp h
        cases h
        exact .literal tagged (string_eq_ok hs)
      | bool =>
        obtain ⟨b, hb, h⟩ := except_bind_eq_ok.mp h
        cases h
        exact .literal tagged (bool_eq_ok hb)
      | list =>
        obtain ⟨items, hitems, h⟩ := except_bind_eq_ok.mp h
        cases h
        rw [itemsOfJson_eq] at hitems
        obtain ⟨values, hfound, hread⟩ := listField_eq_ok hitems
        have hlt := Json.sizeOf_lookup_array hfound
        exact .list tagged hfound (Pattern.described_of_listOfJson hread)
      | listTail =>
        obtain ⟨items, hitems, h⟩ := except_bind_eq_ok.mp h
        obtain ⟨tail, htail, h⟩ := except_bind_eq_ok.mp h
        cases h
        rw [itemsOfJson_eq] at hitems
        obtain ⟨values, hfound, hread⟩ := listField_eq_ok hitems
        have hlt := Json.sizeOf_lookup_array hfound
        exact .listTail tagged hfound (Pattern.described_of_listOfJson hread) (string_eq_ok htail)
  | .null | .bool _ | .int _ | .real | .string _ | .array _ =>
    rw [Pattern.ofJson] at h
    · cases h
    · simp
termination_by sizeOf json
decreasing_by
  all_goals
    simp only [Json.object.sizeOf_spec]
    omega

theorem Pattern.described_of_listOfJson {trail : Trail} {index : Nat} {values : List Json}
    {ps : List Pattern} (h : Pattern.listOfJson trail index values = .ok ps) :
    List.Forall₂ (fun json p => Pattern.Described json p) values ps := by
  cases values with
  | nil =>
    rw [Pattern.listOfJson] at h
    cases h
    exact .nil
  | cons value rest =>
    rw [Pattern.listOfJson] at h
    obtain ⟨item, items, hitem, hitems, rfl⟩ := cons_eq_ok h
    exact .cons (Pattern.described_of_ofJson hitem) (Pattern.described_of_listOfJson hitems)
termination_by sizeOf values

end

theorem Pattern.described_of_fieldOfJson {trail : Trail} {name : String}
    {fields : List (Text × Json)} {p : Pattern}
    (h : Pattern.fieldOfJson trail name fields = .ok p) :
    ∃ json, Json.lookup name fields = some json ∧ p.Described json := by
  unfold Pattern.fieldOfJson at h
  split at h
  · cases h
  · rename_i inner hfound
    exact ⟨_, hfound, Pattern.described_of_ofJson h⟩
  · cases h

mutual

theorem Expr.described_of_ofJson {trail : Trail} {json : Json} {e : Expr}
    (h : Expr.ofJson trail json = .ok e) : e.Described json := by
  match json with
  | .object fields =>
    rw [Expr.ofJson] at h
    obtain ⟨text, htext, h⟩ := except_bind_eq_ok.mp h
    cases hkind : Tag.ofText? text with
    | none =>
      rw [hkind] at h
      cases h
    | some kind =>
      have tagged : Json.Tagged kind.name fields := by
        rw [Json.Tagged, ← Tag.eq_name_of_ofText? hkind]
        exact tag_eq_ok htext
      rw [hkind] at h
      cases kind with
      | int =>
        obtain ⟨n, hn, h⟩ := except_bind_eq_ok.mp h
        cases h
        exact .literal tagged (int_eq_ok hn)
      | string =>
        obtain ⟨s, hs, h⟩ := except_bind_eq_ok.mp h
        cases h
        exact .literal tagged (string_eq_ok hs)
      | bool =>
        obtain ⟨b, hb, h⟩ := except_bind_eq_ok.mp h
        cases h
        exact .literal tagged (bool_eq_ok hb)
      | var =>
        obtain ⟨name, hname, h⟩ := except_bind_eq_ok.mp h
        cases h
        exact .var tagged (string_eq_ok hname)
      | list =>
        obtain ⟨items, hitems, h⟩ := except_bind_eq_ok.mp h
        cases h
        obtain ⟨values, hfound, described⟩ := Expr.described_of_itemsOfJson hitems
        exact .list tagged hfound described
      | binop =>
        obtain ⟨op, hop, h⟩ := except_bind_eq_ok.mp h
        obtain ⟨left, hleft, h⟩ := except_bind_eq_ok.mp h
        obtain ⟨right, hright, h⟩ := except_bind_eq_ok.mp h
        cases h
        obtain ⟨op_found, valid⟩ := operator_eq_ok hop
        obtain ⟨_, left_found, left_described⟩ := Expr.described_of_fieldOfJson hleft
        obtain ⟨_, right_found, right_described⟩ := Expr.described_of_fieldOfJson hright
        exact .binop tagged op_found valid left_found left_described right_found right_described
      | letIn =>
        obtain ⟨name, hname, h⟩ := except_bind_eq_ok.mp h
        obtain ⟨value, hvalue, h⟩ := except_bind_eq_ok.mp h
        obtain ⟨body, hbody, h⟩ := except_bind_eq_ok.mp h
        cases h
        obtain ⟨_, value_found, value_described⟩ := Expr.described_of_fieldOfJson hvalue
        obtain ⟨_, body_found, body_described⟩ := Expr.described_of_fieldOfJson hbody
        exact .letIn tagged (string_eq_ok hname) value_found value_described body_found
          body_described
      | apply =>
        obtain ⟨function, hfunction, h⟩ := except_bind_eq_ok.mp h
        obtain ⟨args, hargs, h⟩ := except_bind_eq_ok.mp h
        cases h
        obtain ⟨_, function_found, function_described⟩ := Expr.described_of_fieldOfJson hfunction
        obtain ⟨values, args_found, described⟩ := Expr.described_of_itemsOfJson hargs
        exact .apply tagged function_found function_described args_found described
      | lambda =>
        obtain ⟨params, hparams, h⟩ := except_bind_eq_ok.mp h
        obtain ⟨body, hbody, h⟩ := except_bind_eq_ok.mp h
        cases h
        obtain ⟨_, body_found, body_described⟩ := Expr.described_of_fieldOfJson hbody
        exact .lambda tagged (strings_eq_ok hparams) body_found body_described
      | cases =>
        obtain ⟨subject, hsubject, h⟩ := except_bind_eq_ok.mp h
        obtain ⟨clauses, hclauses, h⟩ := except_bind_eq_ok.mp h
        cases h
        obtain ⟨_, subject_found, subject_described⟩ := Expr.described_of_fieldOfJson hsubject
        obtain ⟨values, clauses_found, described⟩ := Expr.described_of_clausesOfJson hclauses
        exact .cases tagged subject_found subject_described clauses_found described
  | .null | .bool _ | .int _ | .real | .string _ | .array _ =>
    rw [Expr.ofJson] at h
    · cases h
    · simp
termination_by sizeOf json

theorem Expr.described_of_fieldOfJson {trail : Trail} {name : String}
    {fields : List (Text × Json)} {e : Expr} (h : Expr.fieldOfJson trail name fields = .ok e) :
    ∃ json, Json.lookup name fields = some json ∧ e.Described json := by
  rw [Expr.fieldOfJson_eq] at h
  cases hfound : Json.lookup name fields with
  | none =>
    rw [hfound] at h
    cases h
  | some value =>
    have hlt := Json.sizeOf_lookup hfound
    rw [hfound, Option.elim] at h
    split at h
    · exact ⟨value, rfl, Expr.described_of_ofJson h⟩
    · cases h
termination_by sizeOf fields

theorem Expr.described_of_itemsOfJson {trail : Trail} {name : String}
    {fields : List (Text × Json)} {es : List Expr}
    (h : Expr.itemsOfJson trail name fields = .ok es) :
    ∃ values, Json.lookup name fields = some (.array values) ∧
      List.Forall₂ (fun json e => Expr.Described json e) values es := by
  rw [Expr.itemsOfJson_eq] at h
  obtain ⟨values, hfound, hread⟩ := listField_eq_ok h
  have hlt := Json.sizeOf_lookup_array hfound
  exact ⟨values, hfound, Expr.described_of_listOfJson hread⟩
termination_by sizeOf fields

theorem Expr.described_of_clausesOfJson {trail : Trail} {name : String}
    {fields : List (Text × Json)} {clauses : List Clause}
    (h : Expr.clausesOfJson trail name fields = .ok clauses) :
    ∃ values, Json.lookup name fields = some (.array values) ∧
      List.Forall₂ (fun json clause => Clause.Described json clause) values clauses := by
  rw [Expr.clausesOfJson_eq] at h
  obtain ⟨values, hfound, hread⟩ := listField_eq_ok h
  have hlt := Json.sizeOf_lookup_array hfound
  exact ⟨values, hfound, Expr.described_of_clauseListOfJson hread⟩
termination_by sizeOf fields

theorem Expr.described_of_listOfJson {trail : Trail} {index : Nat} {values : List Json}
    {es : List Expr} (h : Expr.listOfJson trail index values = .ok es) :
    List.Forall₂ (fun json e => Expr.Described json e) values es := by
  cases values with
  | nil =>
    rw [Expr.listOfJson] at h
    cases h
    exact .nil
  | cons value rest =>
    rw [Expr.listOfJson] at h
    obtain ⟨item, items, hitem, hitems, rfl⟩ := cons_eq_ok h
    exact .cons (Expr.described_of_ofJson hitem) (Expr.described_of_listOfJson hitems)
termination_by sizeOf values

theorem Expr.described_of_clauseListOfJson {trail : Trail} {index : Nat} {values : List Json}
    {clauses : List Clause} (h : Expr.clauseListOfJson trail index values = .ok clauses) :
    List.Forall₂ (fun json clause => Clause.Described json clause) values clauses := by
  cases values with
  | nil =>
    rw [Expr.clauseListOfJson] at h
    cases h
    exact .nil
  | cons value rest =>
    rw [Expr.clauseListOfJson] at h
    obtain ⟨clause, more, hclause, hmore, rfl⟩ := cons_eq_ok h
    exact .cons (Expr.described_of_clauseOfJson hclause) (Expr.described_of_clauseListOfJson hmore)
termination_by sizeOf values

theorem Expr.described_of_clauseOfJson {trail : Trail} {json : Json} {clause : Clause}
    (h : Expr.clauseOfJson trail json = .ok clause) : clause.Described json := by
  match json with
  | .object fields =>
    rw [Expr.clauseOfJson] at h
    obtain ⟨pattern, hpattern, h⟩ := except_bind_eq_ok.mp h
    obtain ⟨body, hbody, h⟩ := except_bind_eq_ok.mp h
    cases h
    obtain ⟨_, pattern_found, pattern_described⟩ := Pattern.described_of_fieldOfJson hpattern
    obtain ⟨_, body_found, body_described⟩ := Expr.described_of_fieldOfJson hbody
    exact .mk pattern_found pattern_described body_found body_described
  | .null | .bool _ | .int _ | .real | .string _ | .array _ =>
    rw [Expr.clauseOfJson] at h
    · cases h
    · simp
termination_by sizeOf json

end

end CaseScript
