import CaseScript.Proofs.Expr.Encoding

/-!
# The schema of trees

The fields that an object must have, tag by tag, and what each of them must hold. Reading accepts
just the values that fit this schema. It keeps all of them but the fields that the schema does not
name: without these, a value is what its tree is written as.
-/

namespace CaseScript

/-! ## The schema -/

/-- What a place in a JSON value asks for. -/
inductive Content where
  | integer
  | boolean
  | string
  | operator
  | expr
  | clause
  | pattern
  | listOf (item : Content)

/-- The fields that an expression with this tag must have. -/
def Expr.Tag.fields : Expr.Tag → List (String × Content)
  | int => [("value", .integer)]
  | string => [("value", .string)]
  | bool => [("value", .boolean)]
  | var => [("name", .string)]
  | list => [("items", .listOf .expr)]
  | binop => [("op", .operator), ("left", .expr), ("right", .expr)]
  | letIn => [("name", .string), ("value", .expr), ("body", .expr)]
  | apply => [("function", .expr), ("args", .listOf .expr)]
  | lambda => [("params", .listOf .string), ("body", .expr)]
  | cases => [("subject", .expr), ("clauses", .listOf .clause)]

/-- The fields that a pattern with this tag must have. -/
def Pattern.Tag.fields : Pattern.Tag → List (String × Content)
  | wildcard => []
  | var => [("name", .string)]
  | int => [("value", .integer)]
  | string => [("value", .string)]
  | bool => [("value", .boolean)]
  | list => [("items", .listOf .pattern)]
  | listTail => [("items", .listOf .pattern), ("tail", .string)]

def Clause.fields : List (String × Content) := [("pattern", .pattern), ("body", .expr)]

namespace Json

/-- Does a value hold what its place asks for? Other fields than those asked for may be anything. -/
inductive Fits : Content → Json → Prop
  | integer (n : Int) : Fits .integer (.int n)
  | boolean (b : Bool) : Fits .boolean (.bool b)
  | string (s : Text) : Fits .string (.string s)
  | operator {op : Text} (valid : op.isOperator = true) : Fits .operator (.string op)
  | listOf {item : Content} {items : List Json} (items_fit : ∀ value ∈ items, Fits item value) :
    Fits (.listOf item) (.array items)
  | expr {fields : List (Text × Json)} (kind : Expr.Tag) (tagged : Tagged kind.name fields)
    (present : ∀ field ∈ kind.fields, (lookup field.1 fields).isSome = true)
    (fit : ∀ field ∈ kind.fields, ∀ value, lookup field.1 fields = some value →
      Fits field.2 value) : Fits .expr (.object fields)
  | pattern {fields : List (Text × Json)} (kind : Pattern.Tag) (tagged : Tagged kind.name fields)
    (present : ∀ field ∈ kind.fields, (lookup field.1 fields).isSome = true)
    (fit : ∀ field ∈ kind.fields, ∀ value, lookup field.1 fields = some value →
      Fits field.2 value) : Fits .pattern (.object fields)
  | clause {fields : List (Text × Json)}
    (present : ∀ field ∈ Clause.fields, (lookup field.1 fields).isSome = true)
    (fit : ∀ field ∈ Clause.fields, ∀ value, lookup field.1 fields = some value →
      Fits field.2 value) : Fits .clause (.object fields)

/-- Is there such a field with such a content? -/
def HasField (fields : List (Text × Json)) (field : String × Content) : Prop :=
  ∃ value, lookup field.1 fields = some value ∧ Fits field.2 value

theorem forall_hasField_iff {fields : List (Text × Json)} {asked : List (String × Content)} :
    (∀ field ∈ asked, HasField fields field) ↔
      (∀ field ∈ asked, (lookup field.1 fields).isSome = true) ∧
        ∀ field ∈ asked, ∀ value, lookup field.1 fields = some value → Fits field.2 value := by
  constructor
  · intro h
    refine ⟨fun field hfield => ?_, fun field hfield value hvalue => ?_⟩
    · obtain ⟨value, hfound, -⟩ := h field hfield
      rw [hfound]
      rfl
    · obtain ⟨found, hfound, hfits⟩ := h field hfield
      rw [hfound] at hvalue
      exact Option.some.inj hvalue ▸ hfits
  · rintro ⟨hpresent, hfit⟩ field hfield
    obtain ⟨value, hfound⟩ := Option.isSome_iff_exists.mp (hpresent field hfield)
    exact ⟨value, hfound, hfit field hfield value hfound⟩

/-- An object has at most one tag that is known. -/
theorem Tagged.unique {κ : Type} {name : κ → String} {ofText? : Text → Option κ}
    (hname : ∀ kind, ofText? (Text.ofString (name kind)) = some kind) {kind kind' : κ}
    {fields : List (Text × Json)} (h : Tagged (name kind) fields)
    (h' : Tagged (name kind') fields) : kind = kind' := by
  unfold Tagged at h h'
  rw [h] at h'
  have htext := Json.string.inj (Option.some.inj h')
  have hkind := hname kind
  rw [htext, hname] at hkind
  exact (Option.some.inj hkind).symm

variable {fields : List (Text × Json)}

/-- The tag says which fields an expression must have. -/
theorem fits_expr_iff {kind : Expr.Tag} (tagged : Tagged kind.name fields) :
    Fits .expr (.object fields) ↔ ∀ field ∈ kind.fields, HasField fields field := by
  rw [forall_hasField_iff]
  constructor
  · intro h
    cases h with
    | expr other tagged' present fit =>
      obtain rfl := tagged'.unique Expr.Tag.ofText?_name tagged
      exact ⟨present, fit⟩
  · rintro ⟨present, fit⟩
    exact .expr kind tagged present fit

theorem fits_pattern_iff {kind : Pattern.Tag} (tagged : Tagged kind.name fields) :
    Fits .pattern (.object fields) ↔ ∀ field ∈ kind.fields, HasField fields field := by
  rw [forall_hasField_iff]
  constructor
  · intro h
    cases h with
    | pattern other tagged' present fit =>
      obtain rfl := tagged'.unique Pattern.Tag.ofText?_name tagged
      exact ⟨present, fit⟩
  · rintro ⟨present, fit⟩
    exact .pattern kind tagged present fit

theorem fits_clause_iff :
    Fits .clause (.object fields) ↔ ∀ field ∈ Clause.fields, HasField fields field := by
  rw [forall_hasField_iff]
  constructor
  · intro h
    cases h with
    | clause present fit => exact ⟨present, fit⟩
  · rintro ⟨present, fit⟩
    exact .clause present fit

end Json

/-! ## Reading decides the schema -/

namespace Decoded

variable {α β : Type} {x : Decoded α} {P Q : Prop}

/-- Does a reading succeed just if this is true, and give reasons otherwise? -/
def Decides (x : Decoded α) (P : Prop) : Prop :=
  match x with
  | .ok _ => P
  | .error faults => ¬P ∧ faults ≠ []

theorem decides_pure (a : α) (h : P) : Decides (pure a : Decoded α) P := h

theorem decides_fault {trail : Trail} {cause : ShapeFault.Cause} (h : ¬P) :
    Decides (fault trail cause : Decoded α) P := ⟨h, List.cons_ne_nil _ _⟩

theorem Decides.of_iff (hx : x.Decides P) (h : P ↔ Q) : x.Decides Q := propext h ▸ hx

theorem Decides.bind (hx : x.Decides P) {f : α → Decoded β}
    (hf : ∀ a, x = .ok a → (f a).Decides Q) : (x >>= f).Decides (P ∧ Q) := by
  cases x with
  | error faults => exact ⟨fun h => hx.1 h.1, hx.2⟩
  | ok a =>
    have hp : P := hx
    exact (hf a rfl).of_iff (and_iff_right hp).symm

theorem Decides.map (hx : x.Decides P) (f : α → β) :
    Decides (x >>= fun a => pure (f a)) P := by
  cases x with
  | error faults => exact hx
  | ok a => exact hx

theorem Decides.cons {xs : Decoded (List α)} (hx : x.Decides P) (hs : xs.Decides Q) :
    (x.cons xs).Decides (P ∧ Q) := by
  cases x with
  | ok a =>
    cases xs with
    | ok items => exact ⟨hx, hs⟩
    | error more => exact ⟨fun h => hs.1 h.2, hs.2⟩
  | error faults =>
    cases xs with
    | ok items => exact ⟨fun h => hx.1 h.1, hx.2⟩
    | error more => exact ⟨fun h => hx.1 h.1, fun h => hx.2 (List.append_eq_nil_iff.mp h).1⟩

/-! ### Fields -/

section Parts

variable {trail : Trail} {fields : List (Text × Json)} {name : String} {content : Content}

theorem decides_elim {read : Json → Decoded α}
    (hread : ∀ value, Json.lookup name fields = some value →
      (read value).Decides (value.Fits content)) :
    Decides ((Json.lookup name fields).elim (fault trail (.missingField name)) read)
      (Json.HasField fields (name, content)) := by
  unfold Json.HasField
  cases hfound : Json.lookup name fields with
  | none => exact decides_fault (by simp)
  | some value => exact (hread value hfound).of_iff (by simp)

/-- A field of one kind, where the values of that kind are written by `write`. -/
theorem decides_field {kind : Json.Kind} {read? : Json → Option α} {write : α → Json}
    (hread : ∀ value a, read? value = some a ↔ value = write a)
    (hfits : ∀ value : Json, value.Fits content ↔ ∃ a, value = write a) :
    Decides (field kind read? trail name fields) (Json.HasField fields (name, content)) := by
  rw [field_eq]
  refine decides_elim fun value _ => ?_
  simp only [hfits, ← hread, ← Option.isSome_iff_exists]
  cases read? value with
  | none => exact decides_fault Bool.false_ne_true
  | some a => exact decides_pure a rfl

theorem decides_string :
    Decides (string trail name fields) (Json.HasField fields (name, .string)) := by
  refine decides_field (fun _ _ => Json.string?_eq_some) fun value => ⟨fun h => ?_, ?_⟩
  · cases h with
    | string s => exact ⟨s, rfl⟩
  · rintro ⟨s, rfl⟩
    exact .string s

theorem decides_int : Decides (int trail name fields) (Json.HasField fields (name, .integer)) := by
  refine decides_field (fun _ _ => Json.int?_eq_some) fun value => ⟨fun h => ?_, ?_⟩
  · cases h with
    | integer n => exact ⟨n, rfl⟩
  · rintro ⟨n, rfl⟩
    exact .integer n

theorem decides_bool :
    Decides (bool trail name fields) (Json.HasField fields (name, .boolean)) := by
  refine decides_field (fun _ _ => Json.bool?_eq_some) fun value => ⟨fun h => ?_, ?_⟩
  · cases h with
    | boolean b => exact ⟨b, rfl⟩
  · rintro ⟨b, rfl⟩
    exact .boolean b

/-- An operator is a string that can be read as one. -/
theorem decides_operator :
    Decides (operator trail fields) (Json.HasField fields ("op", .operator)) := by
  have hiff : Json.HasField fields ("op", .operator) ↔
      Json.HasField fields ("op", .string) ∧
        ∀ op, Json.lookup "op" fields = some (.string op) → op.isOperator = true := by
    constructor
    · rintro ⟨_, hfound, hfits⟩
      cases hfits with
      | operator valid =>
        refine ⟨⟨_, hfound, .string _⟩, fun op hop => ?_⟩
        rw [hfound] at hop
        exact Json.string.inj (Option.some.inj hop) ▸ valid
    · rintro ⟨⟨_, hfound, hfits⟩, hvalid⟩
      cases hfits with
      | string op => exact ⟨_, hfound, .operator (hvalid op hfound)⟩
  refine Decides.of_iff ?_ hiff.symm
  refine decides_string.bind fun op hop => ?_
  have hfound := string_eq_ok hop
  by_cases hvalid : op.isOperator = true
  · rw [if_pos hvalid]
    refine decides_pure op fun other hother => ?_
    rw [hfound] at hother
    exact Json.string.inj (Option.some.inj hother) ▸ hvalid
  · rw [if_neg hvalid]
    exact decides_fault fun h => hvalid (h op hfound)

/-! ### Lists -/

theorem decides_listField {read : List Json → Decoded α}
    (hread : ∀ values, Json.lookup name fields = some (.array values) →
      (read values).Decides (∀ value ∈ values, value.Fits content)) :
    Decides ((Json.lookup name fields).elim (fault trail (.missingField name))
      (listField trail name read)) (Json.HasField fields (name, .listOf content)) := by
  refine decides_elim fun value hfound => ?_
  cases value with
  | array values =>
    refine (hread values hfound).of_iff ⟨.listOf, fun h => ?_⟩
    cases h with
    | listOf items_fit => exact items_fit
  | _ => exact decides_fault (fun h => by cases h)

theorem decides_entries (index : Nat) (values : List Json) :
    Decides (entries trail name index values) (∀ value ∈ values, value.Fits .string) := by
  induction values generalizing index with
  | nil => exact decides_pure [] (List.forall_mem_nil _)
  | cons value rest ih =>
    rw [entries, List.forall_mem_cons]
    cases hvalue : value.string? with
    | none =>
      refine decides_fault fun h => ?_
      cases h.1 with
      | string s => cases hvalue
    | some s =>
      have hfits : value.Fits .string := Json.string?_eq_some.mp hvalue ▸ .string s
      exact ((ih (index + 1)).map fun more => s :: more).of_iff (and_iff_right hfits).symm

theorem decides_strings :
    Decides (strings trail name fields) (Json.HasField fields (name, .listOf .string)) := by
  have hstrings : strings trail name fields =
      (Json.lookup name fields).elim (fault trail (.missingField name))
        (listField trail name (entries trail name 0)) := by
    rw [strings, list, field_eq]
    cases Json.lookup name fields with
    | none => rfl
    | some value => cases value <;> rfl
  rw [hstrings]
  exact decides_listField fun values _ => decides_entries 0 values

/-- An object is read by its tag if it has one that is known, and is at fault if it has none. -/
theorem decides_tag {κ : Type} {tagName : κ → String} {ofText? : Text → Option κ}
    (htag_eq : ∀ text kind, ofText? text = some kind → text = Text.ofString (tagName kind))
    (hname : ∀ kind, ofText? (Text.ofString (tagName kind)) = some kind)
    {unknown : Text → ShapeFault.Cause} {read : κ → Decoded α}
    (htag : P → ∃ kind, Json.Tagged (tagName kind) fields)
    (hread : ∀ kind, Json.Tagged (tagName kind) fields → (read kind).Decides P) :
    Decides (tag trail fields >>= fun text =>
      (ofText? text).elim (fault trail (unknown text)) read) P := by
  unfold tag
  split
  · rename_i text hfound
    rw [pure_bind]
    cases hkind : ofText? text with
    | none =>
      refine decides_fault fun hp => ?_
      obtain ⟨kind, tagged⟩ := htag hp
      have htext := Json.string.inj (Option.some.inj (hfound.symm.trans tagged))
      rw [htext, hname] at hkind
      cases hkind
    | some kind =>
      rw [htag_eq text kind hkind] at hfound
      exact hread kind hfound
  · rename_i hfound
    refine decides_fault fun hp => ?_
    obtain ⟨kind, tagged⟩ := htag hp
    exact hfound _ tagged

end Parts

end Decoded

open Decoded

mutual

theorem Pattern.decides_ofJson {trail : Trail} {json : Json} :
    Decides (Pattern.ofJson trail json) (json.Fits .pattern) := by
  match json with
  | .object fields =>
    have htag (h : (Json.object fields).Fits .pattern) :
        ∃ kind, Json.Tagged (Pattern.Tag.name kind) fields := by
      cases h with
      | pattern kind tagged _ _ => exact ⟨kind, tagged⟩
    rw [Pattern.ofJson_object]
    refine decides_tag (fun _ _ => Pattern.Tag.eq_name_of_ofText?) Pattern.Tag.ofText?_name htag
      fun kind tagged => ?_
    rw [Json.fits_pattern_iff tagged]
    have hitems : Decides (Pattern.itemsOfJson trail "items" fields)
        (Json.HasField fields ("items", .listOf .pattern)) := by
      rw [Pattern.itemsOfJson_eq]
      refine decides_listField fun values hvalues => ?_
      have hlt := Json.sizeOf_lookup_array hvalues
      exact Pattern.decides_listOfJson
    cases kind with
    | wildcard => exact decides_pure _ (List.forall_mem_nil _)
    | var =>
      rw [Pattern.Tag.fields, List.forall_mem_singleton]
      exact decides_string.map _
    | int =>
      rw [Pattern.Tag.fields, List.forall_mem_singleton]
      exact decides_int.map _
    | string =>
      rw [Pattern.Tag.fields, List.forall_mem_singleton]
      exact decides_string.map _
    | bool =>
      rw [Pattern.Tag.fields, List.forall_mem_singleton]
      exact decides_bool.map _
    | list =>
      rw [Pattern.Tag.fields, List.forall_mem_singleton]
      exact hitems.map _
    | listTail =>
      rw [Pattern.Tag.fields, List.forall_mem_cons, List.forall_mem_singleton]
      exact hitems.bind fun _ _ => decides_string.map _
  | .null | .bool _ | .int _ | .real | .string _ | .array _ =>
    rw [Pattern.ofJson]
    · exact decides_fault (fun h => by cases h)
    · simp
termination_by sizeOf json
decreasing_by
  all_goals
    simp only [Json.object.sizeOf_spec]
    omega

theorem Pattern.decides_listOfJson {trail : Trail} {index : Nat} {values : List Json} :
    Decides (Pattern.listOfJson trail index values) (∀ value ∈ values, value.Fits .pattern) := by
  cases values with
  | nil =>
    rw [Pattern.listOfJson]
    exact decides_pure [] (List.forall_mem_nil _)
  | cons value rest =>
    rw [Pattern.listOfJson, List.forall_mem_cons]
    exact Pattern.decides_ofJson.cons Pattern.decides_listOfJson
termination_by sizeOf values

end

theorem Pattern.decides_fieldOfJson {trail : Trail} {name : String} {fields : List (Text × Json)} :
    Decides (Pattern.fieldOfJson trail name fields) (Json.HasField fields (name, .pattern)) := by
  have hfield : Pattern.fieldOfJson trail name fields =
      (Json.lookup name fields).elim (fault trail (.missingField name)) fun value =>
        if value.kind = .object then Pattern.ofJson (trail.field name) value
        else fault (trail.field name) (.wrongKind name .object) := by
    unfold Pattern.fieldOfJson
    cases Json.lookup name fields with
    | none => rfl
    | some value => cases value <;> rfl
  rw [hfield]
  refine decides_elim fun value _ => ?_
  by_cases hkind : value.kind = .object
  · rw [if_pos hkind]
    exact Pattern.decides_ofJson
  · rw [if_neg hkind]
    refine decides_fault fun h => ?_
    cases h
    exact hkind rfl

mutual

theorem Expr.decides_ofJson {trail : Trail} {json : Json} :
    Decides (Expr.ofJson trail json) (json.Fits .expr) := by
  match json with
  | .object fields =>
    have htag (h : (Json.object fields).Fits .expr) :
        ∃ kind, Json.Tagged (Expr.Tag.name kind) fields := by
      cases h with
      | expr kind tagged _ _ => exact ⟨kind, tagged⟩
    rw [Expr.ofJson_object]
    refine decides_tag (fun _ _ => Expr.Tag.eq_name_of_ofText?) Expr.Tag.ofText?_name htag
      fun kind tagged => ?_
    rw [Json.fits_expr_iff tagged]
    have hfield : ∀ name, Decides (Expr.fieldOfJson trail name fields)
        (Json.HasField fields (name, .expr)) := fun _ => Expr.decides_fieldOfJson
    have hitems : ∀ name, Decides (Expr.itemsOfJson trail name fields)
        (Json.HasField fields (name, .listOf .expr)) := fun _ => Expr.decides_itemsOfJson
    cases kind with
    | int =>
      rw [Expr.Tag.fields, List.forall_mem_singleton]
      exact decides_int.map _
    | string =>
      rw [Expr.Tag.fields, List.forall_mem_singleton]
      exact decides_string.map _
    | bool =>
      rw [Expr.Tag.fields, List.forall_mem_singleton]
      exact decides_bool.map _
    | var =>
      rw [Expr.Tag.fields, List.forall_mem_singleton]
      exact decides_string.map _
    | list =>
      rw [Expr.Tag.fields, List.forall_mem_singleton]
      exact (hitems "items").map _
    | binop =>
      rw [Expr.Tag.fields, List.forall_mem_cons, List.forall_mem_cons, List.forall_mem_singleton]
      refine decides_operator.bind fun _ _ => ?_
      exact (hfield "left").bind fun _ _ => (hfield "right").map _
    | letIn =>
      rw [Expr.Tag.fields, List.forall_mem_cons, List.forall_mem_cons, List.forall_mem_singleton]
      refine decides_string.bind fun _ _ => ?_
      exact (hfield "value").bind fun _ _ => (hfield "body").map _
    | apply =>
      rw [Expr.Tag.fields, List.forall_mem_cons, List.forall_mem_singleton]
      exact (hfield "function").bind fun _ _ => (hitems "args").map _
    | lambda =>
      rw [Expr.Tag.fields, List.forall_mem_cons, List.forall_mem_singleton]
      exact decides_strings.bind fun _ _ => (hfield "body").map _
    | cases =>
      rw [Expr.Tag.fields, List.forall_mem_cons, List.forall_mem_singleton]
      exact (hfield "subject").bind fun _ _ => Expr.decides_clausesOfJson.map _
  | .null | .bool _ | .int _ | .real | .string _ | .array _ =>
    rw [Expr.ofJson]
    · exact decides_fault (fun h => by cases h)
    · simp
termination_by sizeOf json

theorem Expr.decides_fieldOfJson {trail : Trail} {name : String} {fields : List (Text × Json)} :
    Decides (Expr.fieldOfJson trail name fields) (Json.HasField fields (name, .expr)) := by
  rw [Expr.fieldOfJson_eq]
  refine decides_elim fun value hfound => ?_
  have hlt := Json.sizeOf_lookup hfound
  by_cases hkind : value.kind = .object
  · rw [if_pos hkind]
    exact Expr.decides_ofJson
  · rw [if_neg hkind]
    refine decides_fault fun h => ?_
    cases h
    exact hkind rfl
termination_by sizeOf fields

theorem Expr.decides_itemsOfJson {trail : Trail} {name : String} {fields : List (Text × Json)} :
    Decides (Expr.itemsOfJson trail name fields)
      (Json.HasField fields (name, .listOf .expr)) := by
  rw [Expr.itemsOfJson_eq]
  refine decides_listField fun values hfound => ?_
  have hlt := Json.sizeOf_lookup_array hfound
  exact Expr.decides_listOfJson
termination_by sizeOf fields

theorem Expr.decides_clausesOfJson {trail : Trail} {name : String} {fields : List (Text × Json)} :
    Decides (Expr.clausesOfJson trail name fields)
      (Json.HasField fields (name, .listOf .clause)) := by
  rw [Expr.clausesOfJson_eq]
  refine decides_listField fun values hfound => ?_
  have hlt := Json.sizeOf_lookup_array hfound
  exact Expr.decides_clauseListOfJson
termination_by sizeOf fields

theorem Expr.decides_listOfJson {trail : Trail} {index : Nat} {values : List Json} :
    Decides (Expr.listOfJson trail index values) (∀ value ∈ values, value.Fits .expr) := by
  cases values with
  | nil =>
    rw [Expr.listOfJson]
    exact decides_pure [] (List.forall_mem_nil _)
  | cons value rest =>
    rw [Expr.listOfJson, List.forall_mem_cons]
    exact Expr.decides_ofJson.cons Expr.decides_listOfJson
termination_by sizeOf values

theorem Expr.decides_clauseListOfJson {trail : Trail} {index : Nat} {values : List Json} :
    Decides (Expr.clauseListOfJson trail index values) (∀ value ∈ values, value.Fits .clause) := by
  cases values with
  | nil =>
    rw [Expr.clauseListOfJson]
    exact decides_pure [] (List.forall_mem_nil _)
  | cons value rest =>
    rw [Expr.clauseListOfJson, List.forall_mem_cons]
    exact Expr.decides_clauseOfJson.cons Expr.decides_clauseListOfJson
termination_by sizeOf values

theorem Expr.decides_clauseOfJson {trail : Trail} {json : Json} :
    Decides (Expr.clauseOfJson trail json) (json.Fits .clause) := by
  match json with
  | .object fields =>
    rw [Expr.clauseOfJson, Json.fits_clause_iff, Clause.fields, List.forall_mem_cons,
      List.forall_mem_singleton]
    exact Pattern.decides_fieldOfJson.bind fun _ _ => Expr.decides_fieldOfJson.map _
  | .null | .bool _ | .int _ | .real | .string _ | .array _ =>
    rw [Expr.clauseOfJson]
    · exact decides_fault (fun h => by cases h)
    · simp
termination_by sizeOf json

end

end CaseScript
