import CaseScript.Proofs.Expr.Schema

/-!
# Values without the fields that are ignored

What reading leaves of a value: the fields that the schema names, in all objects of a tree. The
order of fields says nothing. Up to this order, what is left is what the tree is written as.
-/

namespace CaseScript

/-- The content of the items of a list. -/
def Content.item : Content → Content
  | listOf item => item
  | content => content

/-- The fields that an object with this content is read for; its tag is one of them. -/
def Content.known (fields : List (Text × Json)) : Content → List (String × Content)
  | expr =>
    let kind? := ((Json.lookup "type" fields).bind Json.string?).bind Expr.Tag.ofText?
    ("type", string) :: kind?.elim [] Expr.Tag.fields
  | pattern =>
    let kind? := ((Json.lookup "type" fields).bind Json.string?).bind Pattern.Tag.ofText?
    ("type", string) :: kind?.elim [] Pattern.Tag.fields
  | clause => Clause.fields
  | _ => []

namespace Json

/-- What the field with this key must hold, if it is one of those that are read. -/
def content? (known : List (String × Content)) (key : Text) : Option Content :=
  (known.find? (Text.ofString ·.1 = key)).map Prod.snd

mutual

/-- A value without the fields that are ignored where it stands. -/
def pruned (content : Content) : Json → Json
  | null => null
  | bool b => bool b
  | int n => int n
  | real => real
  | string s => string s
  | array items => array (prunedItems content.item items)
  | object fields => object (prunedFields (content.known fields) fields)

def prunedItems (content : Content) : List Json → List Json
  | [] => []
  | item :: rest => item.pruned content :: prunedItems content rest

/-- The fields of which the content is known, and these without the fields that are ignored in
them. -/
def prunedFields (known : List (String × Content)) : List (Text × Json) → List (Text × Json)
  | [] => []
  | (key, value) :: rest =>
    match content? known key with
    | some content => (key, value.pruned content) :: prunedFields known rest
    | none => prunedFields known rest

end

/-- Are two values the same up to the order of fields? -/
inductive Same : Json → Json → Prop
  | null : Same .null .null
  | bool (b : Bool) : Same (.bool b) (.bool b)
  | int (n : Int) : Same (.int n) (.int n)
  | real : Same .real .real
  | string (s : Text) : Same (.string s) (.string s)
  | array {items items' : List Json} (items_same : List.Forall₂ Same items items') :
    Same (.array items) (.array items')
  | object {fields fields' : List (Text × Json)}
    (fields_same : ∀ key, Option.Rel Same (fields.lookup key) (fields'.lookup key)) :
    Same (.object fields) (.object fields')

/-! ## Objects without the fields that are ignored -/

theorem lookup_prunedFields (known : List (String × Content)) (fields : List (Text × Json))
    (key : Text) :
    (prunedFields known fields).lookup key =
      (content? known key).bind fun content => (fields.lookup key).map (pruned content) := by
  induction fields with
  | nil => simp [prunedFields]
  | cons field rest ih =>
    obtain ⟨other, value⟩ := field
    rw [prunedFields, List.lookup_cons]
    by_cases hkey : key = other
    · subst hkey
      cases hcontent : content? known key with
      | none => rw [ih, hcontent]; rfl
      | some content => simp
    · have hother : (key == other) = false := beq_false_of_ne hkey
      rw [hother]
      cases content? known other with
      | none => exact ih
      | some content => rw [List.lookup_cons, hother, ih]

/-- Is this field of an object left as the value that is written for it? -/
def LeftAs (fields : List (Text × Json)) (field : String × Content) (written : String × Json) :
    Prop :=
  field.1 = written.1 ∧
    ∃ value, lookup field.1 fields = some value ∧ (value.pruned field.2).Same written.2

/-- Fields with names that are written as texts. -/
def named (fields : List (String × Json)) : List (Text × Json) :=
  fields.map fun field => (Text.ofString field.1, field.2)

theorem same_object {known : List (String × Content)} {fields : List (Text × Json)}
    {written : List (String × Json)} (h : List.Forall₂ (LeftAs fields) known written) :
    (object (prunedFields known fields)).Same (object (named written)) := by
  refine .object fun key => ?_
  rw [lookup_prunedFields]
  induction h with
  | nil => exact .none
  | cons left more ih =>
    rename_i field pair asked rest
    obtain ⟨name, content⟩ := field
    obtain ⟨name', value'⟩ := pair
    obtain ⟨hname, value, hfound, hsame⟩ := left
    dsimp only at hname hfound hsame
    subst hname
    unfold lookup at hfound
    rw [content?, List.find?_cons, named, List.map_cons, List.lookup_cons]
    by_cases hkey : Text.ofString name = key
    · subst hkey
      simp only [decide_true, Option.map_some, Option.bind_some, hfound, beq_self_eq_true]
      exact .some hsame
    · have hother : (key == Text.ofString name) = false := beq_false_of_ne (Ne.symm hkey)
      simp only [hkey, decide_false, hother]
      exact ih

/-- A field that is left as it is written. -/
theorem LeftAs.intro {fields : List (Text × Json)} {name : String} {content : Content}
    {value value' : Json} (hfound : lookup name fields = some value)
    (hsame : (value.pruned content).Same value') :
    LeftAs fields (name, content) (name, value') := ⟨rfl, value, hfound, hsame⟩

theorem same_strings (all : List Text) :
    List.Forall₂ Same (prunedItems .string (all.map string)) (all.map string) := by
  induction all with
  | nil => exact .nil
  | cons s rest ih => exact .cons (.string s) ih

section Nodes

variable {fields : List (Text × Json)} {written : List (String × Json)}

theorem Tagged.text {name : String} (h : Tagged name fields) :
    (lookup "type" fields).bind string? = some (Text.ofString name) := by
  unfold Tagged at h
  rw [h]
  rfl

theorem same_expr (kind : Expr.Tag) (tagged : Tagged kind.name fields)
    (h : List.Forall₂ (LeftAs fields) kind.fields written) :
    ((object fields).pruned .expr).Same (node kind.name written) := by
  have hknown : Content.known fields .expr = ("type", .string) :: kind.fields := by
    rw [Content.known, tagged.text, Option.bind_some, Expr.Tag.ofText?_name]
    rfl
  rw [pruned, hknown]
  exact same_object (.cons (.intro tagged (.string _)) h)

theorem same_pattern (kind : Pattern.Tag) (tagged : Tagged kind.name fields)
    (h : List.Forall₂ (LeftAs fields) kind.fields written) :
    ((object fields).pruned .pattern).Same (node kind.name written) := by
  have hknown : Content.known fields .pattern = ("type", .string) :: kind.fields := by
    rw [Content.known, tagged.text, Option.bind_some, Pattern.Tag.ofText?_name]
    rfl
  rw [pruned, hknown]
  exact same_object (.cons (.intro tagged (.string _)) h)

end Nodes

end Json

open Json

/-! ## What is left of a value is what its tree is written as -/

mutual

theorem Pattern.same_pruned {json : Json} {p : Pattern} (h : p.Described json) :
    (json.pruned .pattern).Same p.json := by
  cases p with
  | literal value =>
    cases h with
    | literal tagged value_found =>
      cases value with
      | int n => exact same_pattern .int tagged (.cons (.intro value_found (.int n)) .nil)
      | string s => exact same_pattern .string tagged (.cons (.intro value_found (.string s)) .nil)
      | bool b => exact same_pattern .bool tagged (.cons (.intro value_found (.bool b)) .nil)
  | var name =>
    cases h with
    | var tagged name_found =>
      exact same_pattern .var tagged (.cons (.intro name_found (.string name)) .nil)
  | wildcard =>
    cases h with
    | wildcard tagged => exact same_pattern .wildcard tagged .nil
  | list items =>
    cases h with
    | list tagged items_found described =>
      have hitems := Same.array (Pattern.same_prunedItems described)
      exact same_pattern .list tagged (.cons (.intro items_found hitems) .nil)
  | listTail items tail =>
    cases h with
    | listTail tagged items_found described tail_found =>
      have hitems := Same.array (Pattern.same_prunedItems described)
      exact same_pattern .listTail tagged
        (.cons (.intro items_found hitems) (.cons (.intro tail_found (.string tail)) .nil))

theorem Pattern.same_prunedItems {values : List Json} {items : List Pattern}
    (h : List.Forall₂ (fun json p => Pattern.Described json p) values items) :
    List.Forall₂ Same (prunedItems .pattern values) (Pattern.jsons items) := by
  cases items with
  | nil =>
    cases h
    exact .nil
  | cons p rest =>
    cases h with
    | cons described more =>
      exact .cons (Pattern.same_pruned described) (Pattern.same_prunedItems more)

end

mutual

theorem Expr.same_pruned {json : Json} {e : Expr} (h : e.Described json) :
    (json.pruned .expr).Same e.json := by
  cases e with
  | literal value =>
    cases h with
    | literal tagged value_found =>
      cases value with
      | int n => exact same_expr .int tagged (.cons (.intro value_found (.int n)) .nil)
      | string s => exact same_expr .string tagged (.cons (.intro value_found (.string s)) .nil)
      | bool b => exact same_expr .bool tagged (.cons (.intro value_found (.bool b)) .nil)
  | var name =>
    cases h with
    | var tagged name_found =>
      exact same_expr .var tagged (.cons (.intro name_found (.string name)) .nil)
  | list items =>
    cases h with
    | list tagged items_found described =>
      have hitems := Same.array (Expr.same_prunedItems described)
      exact same_expr .list tagged (.cons (.intro items_found hitems) .nil)
  | binop op left right =>
    cases h with
    | binop tagged op_found valid left_found left_described right_found right_described =>
      have hleft := LeftAs.intro left_found (Expr.same_pruned left_described)
      have hright := LeftAs.intro right_found (Expr.same_pruned right_described)
      exact same_expr .binop tagged
        (.cons (.intro op_found (.string op)) (.cons hleft (.cons hright .nil)))
  | letIn name value body =>
    cases h with
    | letIn tagged name_found value_found value_described body_found body_described =>
      have hvalue := LeftAs.intro value_found (Expr.same_pruned value_described)
      have hbody := LeftAs.intro body_found (Expr.same_pruned body_described)
      exact same_expr .letIn tagged
        (.cons (.intro name_found (.string name)) (.cons hvalue (.cons hbody .nil)))
  | apply function args =>
    cases h with
    | apply tagged function_found function_described args_found described =>
      have hfunction := LeftAs.intro function_found (Expr.same_pruned function_described)
      have hargs := Same.array (Expr.same_prunedItems described)
      exact same_expr .apply tagged (.cons hfunction (.cons (.intro args_found hargs) .nil))
  | lambda params body =>
    cases h with
    | lambda tagged params_found body_found body_described =>
      have hparams := Same.array (same_strings params)
      have hbody := LeftAs.intro body_found (Expr.same_pruned body_described)
      exact same_expr .lambda tagged (.cons (.intro params_found hparams) (.cons hbody .nil))
  | cases subject clauses =>
    cases h with
    | cases tagged subject_found subject_described clauses_found described =>
      have hsubject := LeftAs.intro subject_found (Expr.same_pruned subject_described)
      have hclauses := Same.array (Expr.same_prunedClauses described)
      exact same_expr .cases tagged (.cons hsubject (.cons (.intro clauses_found hclauses) .nil))

theorem Expr.same_prunedItems {values : List Json} {items : List Expr}
    (h : List.Forall₂ (fun json e => Expr.Described json e) values items) :
    List.Forall₂ Same (prunedItems .expr values) (Expr.jsons items) := by
  cases items with
  | nil =>
    cases h
    exact .nil
  | cons item rest =>
    cases h with
    | cons described more =>
      exact .cons (Expr.same_pruned described) (Expr.same_prunedItems more)

theorem Expr.same_prunedClauses {values : List Json} {clauses : List Clause}
    (h : List.Forall₂ (fun json clause => Clause.Described json clause) values clauses) :
    List.Forall₂ Same (prunedItems .clause values) (Expr.clauseJsons clauses) := by
  cases clauses with
  | nil =>
    cases h
    exact .nil
  | cons clause rest =>
    obtain ⟨pattern, body⟩ := clause
    cases h with
    | cons described more =>
      refine .cons ?_ (Expr.same_prunedClauses more)
      cases described with
      | mk pattern_found pattern_described body_found body_described =>
        have hpattern := LeftAs.intro pattern_found (Pattern.same_pruned pattern_described)
        have hbody := LeftAs.intro body_found (Expr.same_pruned body_described)
        exact same_object (.cons hpattern (.cons hbody .nil))

end

/-! ## Reading and writing -/

/-- Does a reader accept just the values with this content, and give reasons for which it refuses
all others? Is what is valid read back after it was written, and what was read written again, up to
the fields that were ignored? -/
structure Json.IsCodec {α : Type} (content : Content) (decode : Json → Decoded α)
    (encode : α → Json) (valid : α → Prop) : Prop where
  accepts_iff : ∀ json, (∃ a, decode json = .ok a) ↔ json.Fits content
  refuses : ∀ json faults, decode json = .error faults → faults ≠ []
  decode_encode_iff : ∀ a, decode (encode a) = .ok a ↔ valid a
  encode_decode : ∀ json a, decode json = .ok a → (json.pruned content).Same (encode a)

theorem Decoded.Decides.exists_ok_iff {α : Type} {x : Decoded α} {P : Prop} (h : x.Decides P) :
    (∃ a, x = .ok a) ↔ P := by
  cases x with
  | ok a => exact ⟨fun _ => h, fun _ => ⟨a, rfl⟩⟩
  | error faults =>
    constructor
    · rintro ⟨a, ha⟩
      cases ha
    · exact fun hp => absurd hp h.1

theorem Decoded.Decides.faults_ne_nil {α : Type} {x : Decoded α} {P : Prop} (h : x.Decides P)
    {faults : List ShapeFault} (herror : x = .error faults) : faults ≠ [] := by
  subst herror
  exact h.2

/-- Expressions and patterns are read from just the values that fit their schema. They are read back
from what they are written as, expressions if their operators can be read, and they are written as
the values that they were read from, without the fields that are ignored. -/
theorem Json.decode_exact :
    IsCodec .expr Expr.decode Expr.json Expr.Readable ∧
      IsCodec .pattern Pattern.decode Pattern.json fun _ => True := by
  constructor
  · exact
      { accepts_iff := fun _ => Expr.decides_ofJson.exists_ok_iff
        refuses := fun _ _ => Expr.decides_ofJson.faults_ne_nil
        decode_encode_iff := fun _ => Expr.decode_json_iff
        encode_decode := fun _ _ h => Expr.same_pruned (Expr.described_of_ofJson h) }
  · exact
      { accepts_iff := fun _ => Pattern.decides_ofJson.exists_ok_iff
        refuses := fun _ _ => Pattern.decides_ofJson.faults_ne_nil
        decode_encode_iff := fun p => iff_true_intro p.decode_json
        encode_decode := fun _ _ h => Pattern.same_pruned (Pattern.described_of_ofJson h) }

/-- The sum `1 + x` with its fields in an order of its own and two fields that are ignored. -/
def Json.annotatedSum : Json :=
  .object (named
    [("line", .int 3), ("right", node "var" [("name", .string (Text.ofString "x"))]),
      ("op", .string (Text.ofString "+")), ("type", .string (Text.ofString "binop")),
      ("left", node "int" [("note", .real), ("value", .int 1)])])

theorem Json.decode_exact_annotatedSum :
    let sum := Expr.binop (Text.ofString "+") (.literal (.int 1)) (.var (Text.ofString "x"))
    Expr.decode annotatedSum = .ok sum ∧ annotatedSum.Fits .expr ∧
      (annotatedSum.pruned .expr).Same sum.json ∧
      ¬(node "int" [("value", .bool true)]).Fits .expr := by
  intro sum
  have hread : Expr.decode annotatedSum = .ok sum := by rfl
  have hcodec := decode_exact.1
  refine ⟨hread, (hcodec.accepts_iff _).mp ⟨sum, hread⟩, hcodec.encode_decode _ _ hread, ?_⟩
  rw [← hcodec.accepts_iff]
  rintro ⟨e, he⟩
  cases he

end CaseScript
