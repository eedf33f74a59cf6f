import CaseScript.Expr.Source
import CaseScript.Proofs.Expr.Fields
import CaseScript.Proofs.Json.Path

/-!
# Where faults of shape stand

Every fault that is met in reading an expression is labelled with a place in the JSON value, and the
value at that place is what the fault says it is.
-/

namespace CaseScript

/-! ## What a fault says of the value at its place -/

/-- Is the value at a place what the cause of a fault says it is? -/
def ShapeFault.Cause.Holds (place : Trail) (value : Json) : ShapeFault.Cause → Prop
  | notObject kind => value.kind = kind ∧ kind ≠ .object
  | missingTag =>
    ∃ fields, value = .object fields ∧ ∀ tag, Json.lookup "type" fields ≠ some (.string tag)
  | missingField name => ∃ fields, value = .object fields ∧ Json.lookup name fields = none
  | wrongKind name kind => (∃ parent : Trail, place = parent.field name) ∧ value.kind ≠ kind
  | entryNotString name =>
    (∃ (parent : Trail) (index : Nat), place = parent.entry name index) ∧ value.kind ≠ .string
  | badOperator =>
    (∃ parent : Trail, place = parent.field "op") ∧
      ∃ op, value = .string op ∧ op.isOperator = false
  | clauseNotObject =>
    (∃ (parent : Trail) (index : Nat), place = parent.entry "clauses" index) ∧
      value.kind ≠ .object
  | unknownExpr tag =>
    ∃ fields, value = .object fields ∧ Json.lookup "type" fields = some (.string tag) ∧
      Expr.Tag.ofText? tag = none
  | unknownPattern tag =>
    ∃ fields, value = .object fields ∧ Json.lookup "type" fields = some (.string tag) ∧
      Pattern.Tag.ofText? tag = none

/-- Does the path of the one label lead to a value of which the fault is true? -/
def ShapeFault.PointsInto (whole : Json) (root : String) (fault : ShapeFault) : Prop :=
  fault.diagnostic.labels.map Label.trail = [fault.trail] ∧
    ∃ value, whole.at? root fault.trail.written = some value ∧ fault.cause.Holds fault.trail value

theorem Json.Reaches.pointsInto {whole value : Json} {root : String} {trail : Trail}
    (h : whole.Reaches root trail value) (hroot : root ≠ "") {cause : ShapeFault.Cause}
    (holds : cause.Holds trail value) : ShapeFault.PointsInto whole root ⟨trail, cause⟩ := by
  refine ⟨?_, value, h.at?_written, holds⟩
  simp [ShapeFault.diagnostic, Diagnostic.errorAt, h.written_ne_empty hroot]

namespace Decoded

variable {α β : Type} {whole : Json} {root : String}

/-- Do all faults point into the value? -/
def Located (whole : Json) (root : String) (x : Decoded α) : Prop :=
  ∀ faults, x = .error faults → ∀ fault ∈ faults, fault.PointsInto whole root

theorem located_ok (a : α) : Located whole root (.ok a) := by
  intro faults h
  cases h

theorem located_pure (a : α) : Located whole root (pure a) := located_ok a

theorem located_fault {trail : Trail} {value : Json} (h : whole.Reaches root trail value)
    (hroot : root ≠ "") {cause : ShapeFault.Cause} (holds : cause.Holds trail value) :
    Located whole root (fault trail cause : Decoded α) := by
  rintro faults ⟨⟩ fault hfault
  rw [List.mem_singleton.mp hfault]
  exact h.pointsInto hroot holds

theorem Located.bind {x : Decoded α} (h : x.Located whole root) {f : α → Decoded β}
    (hf : ∀ a, x = .ok a → (f a).Located whole root) : Located whole root (x >>= f) := by
  cases x with
  | error faults => exact fun _ heq => by cases heq; exact h faults rfl
  | ok a => exact hf a rfl

theorem Located.cons {x : Decoded α} {xs : Decoded (List α)} (h : x.Located whole root)
    (hs : xs.Located whole root) : Located whole root (x.cons xs) := by
  cases x with
  | ok a =>
    cases xs with
    | ok items => exact located_ok _
    | error more => exact fun _ heq => by cases heq; exact hs more rfl
  | error faults =>
    cases xs with
    | ok items => exact fun _ heq => by cases heq; exact h faults rfl
    | error more =>
      intro _ heq
      cases heq
      exact List.forall_mem_append.mpr ⟨h faults rfl, hs more rfl⟩

/-! ## The parts of a node -/

section Parts

variable {trail : Trail} {fields : List (Text × Json)} {name : String}

theorem located_elim (h : whole.Reaches root trail (.object fields)) (hroot : root ≠ "")
    (plain : Json.IsPlain name) {read : Json → Decoded α}
    (hread : ∀ value, Json.lookup name fields = some value →
      whole.Reaches root (trail.field name) value → (read value).Located whole root) :
    Located whole root
      ((Json.lookup name fields).elim (fault trail (.missingField name)) read) := by
  cases hfound : Json.lookup name fields with
  | none => exact located_fault h hroot ⟨fields, rfl, hfound⟩
  | some value => exact hread value hfound (.field h hfound plain)

theorem located_field (h : whole.Reaches root trail (.object fields)) (hroot : root ≠ "")
    (plain : Json.IsPlain name) {kind : Json.Kind} {read? : Json → Option α}
    (hkind : ∀ value, read? value = none → value.kind ≠ kind) :
    Located whole root (field kind read? trail name fields) := by
  rw [field_eq]
  refine located_elim h hroot plain fun value hfound hvalue => ?_
  cases hread : read? value with
  | none => exact located_fault hvalue hroot ⟨⟨trail, rfl⟩, hkind value hread⟩
  | some a => exact located_pure a

theorem located_string (h : whole.Reaches root trail (.object fields)) (hroot : root ≠ "")
    (plain : Json.IsPlain name) :
    Located whole root (string trail name fields) :=
  located_field h hroot plain fun value hread => by
    cases value <;> simp_all [Json.string?, Json.kind]

theorem located_int (h : whole.Reaches root trail (.object fields)) (hroot : root ≠ "")
    (plain : Json.IsPlain name) : Located whole root (int trail name fields) :=
  located_field h hroot plain fun value hread => by
    cases value <;> simp_all [Json.int?, Json.kind]

theorem located_bool (h : whole.Reaches root trail (.object fields)) (hroot : root ≠ "")
    (plain : Json.IsPlain name) : Located whole root (bool trail name fields) :=
  located_field h hroot plain fun value hread => by
    cases value <;> simp_all [Json.bool?, Json.kind]

theorem located_list (h : whole.Reaches root trail (.object fields)) (hroot : root ≠ "")
    (plain : Json.IsPlain name) : Located whole root (list trail name fields) :=
  located_field h hroot plain fun value hread => by
    cases value <;> simp_all [Json.array?, Json.kind]

theorem located_tag (h : whole.Reaches root trail (.object fields)) (hroot : root ≠ "") :
    Located whole root (tag trail fields) := by
  unfold tag
  split
  · exact located_pure _
  · rename_i hfound
    exact located_fault h hroot ⟨fields, rfl, hfound⟩

end Parts

/-! ## Lists -/

section Lists

variable {trail : Trail} {index : Nat} {values : List Json}

theorem located_listField {fields : List (Text × Json)} {name : String}
    (h : whole.Reaches root trail (.object fields)) (hroot : root ≠ "")
    (plain : Json.IsPlain name) {read : List Json → Decoded α}
    (hread : ∀ values, Json.lookup name fields = some (.array values) →
      whole.ItemsReached root (trail.field name) 0 values → (read values).Located whole root) :
    Located whole root ((Json.lookup name fields).elim (fault trail (.missingField name))
      (listField trail name read)) := by
  refine located_elim h hroot plain fun value hfound hvalue => ?_
  cases value with
  | array values => exact hread values hfound (hvalue.items)
  | _ => exact located_fault hvalue hroot ⟨⟨trail, rfl⟩, by simp [Json.kind]⟩

theorem located_entries {name : String}
    (h : whole.ItemsReached root (trail.field name) index values) (hroot : root ≠ "") :
    Located whole root (entries trail name index values) := by
  induction values generalizing index with
  | nil => exact located_pure _
  | cons value rest ih =>
    rw [entries]
    cases value with
    | string s => exact (ih h.tail).bind fun _ _ => located_pure _
    | _ => exact located_fault h.head hroot ⟨⟨trail, index, rfl⟩, by simp [Json.kind]⟩

theorem located_strings {fields : List (Text × Json)} {name : String}
    (h : whole.Reaches root trail (.object fields)) (hroot : root ≠ "")
    (plain : Json.IsPlain name) :
    Located whole root (strings trail name fields) := by
  refine (located_list h hroot plain).bind fun values hvalues => ?_
  have hfound := list_eq_ok hvalues
  exact located_entries (Json.Reaches.field h hfound plain).items hroot

end Lists

theorem located_operator {trail : Trail} {fields : List (Text × Json)}
    (h : whole.Reaches root trail (.object fields)) (hroot : root ≠ "") :
    Located whole root (operator trail fields) := by
  have hplain : Json.IsPlain "op" := by decide
  refine (located_string h hroot hplain).bind fun op hop => ?_
  have hfound := string_eq_ok hop
  split
  · exact located_pure _
  · rename_i hvalid
    have hop : op.isOperator = false := by simpa using hvalid
    exact located_fault (.field h hfound hplain) hroot ⟨⟨trail, rfl⟩, op, rfl, hop⟩

end Decoded

open Decoded

section

variable {whole : Json} {root : String}

mutual

theorem Pattern.located_ofJson (hroot : root ≠ "") {trail : Trail} {json : Json}
    (h : whole.Reaches root trail json) : Located whole root (Pattern.ofJson trail json) := by
  match json, h with
  | .object fields, h =>
    rw [Pattern.ofJson]
    refine (located_tag h hroot).bind fun tagText htag => ?_
    have hfound := tag_eq_ok htag
    cases hkind : Tag.ofText? tagText with
    | none => exact located_fault h hroot ⟨fields, rfl, hfound, hkind⟩
    | some kind =>
      have hitems : Located whole root (itemsOfJson trail "items" fields) := by
        rw [itemsOfJson_eq]
        refine located_listField h hroot (by decide) fun values hvalues hreached => ?_
        have hlt := Json.sizeOf_lookup_array hvalues
        exact located_listOfJson hroot hreached
      cases kind with
      | wildcard => exact located_pure _
      | var => exact (located_string h hroot (by decide)).bind fun _ _ => located_pure _
      | int => exact (located_int h hroot (by decide)).bind fun _ _ => located_pure _
      | string => exact (located_string h hroot (by decide)).bind fun _ _ => located_pure _
      | bool => exact (located_bool h hroot (by decide)).bind fun _ _ => located_pure _
      | list => exact hitems.bind fun _ _ => located_pure _
      | listTail =>
        exact hitems.bind fun _ _ =>
          (located_string h hroot (by decide)).bind fun _ _ => located_pure _
  | .null, h | .bool _, h | .int _, h | .real, h | .string _, h | .array _, h =>
    rw [Pattern.ofJson]
    · exact located_fault h hroot ⟨rfl, by simp [Json.kind]⟩
    · simp
termination_by sizeOf json
decreasing_by
  all_goals
    simp only [Json.object.sizeOf_spec]
    omega

theorem Pattern.located_listOfJson (hroot : root ≠ "") {trail : Trail} {index : Nat}
    {values : List Json} (h : whole.ItemsReached root trail index values) :
    Located whole root (Pattern.listOfJson trail index values) := by
  cases values with
  | nil => exact located_pure _
  | cons value rest =>
    exact (Pattern.located_ofJson hroot h.head).cons (Pattern.located_listOfJson hroot h.tail)
termination_by sizeOf values

end

theorem Pattern.located_fieldOfJson (hroot : root ≠ "") {trail : Trail}
    {fields : List (Text × Json)} (h : whole.Reaches root trail (.object fields)) {name : String}
    (plain : Json.IsPlain name) :
    Located whole root (Pattern.fieldOfJson trail name fields) := by
  unfold Pattern.fieldOfJson
  cases hfound : Json.lookup name fields with
  | none => exact located_fault h hroot ⟨fields, rfl, hfound⟩
  | some value =>
    have hvalue := h.field hfound plain
    cases value with
    | object inner => exact located_ofJson hroot hvalue
    | _ => exact located_fault hvalue hroot ⟨⟨trail, rfl⟩, by simp [Json.kind]⟩

mutual

theorem Expr.located_ofJson (hroot : root ≠ "") {trail : Trail} {json : Json}
    (h : whole.Reaches root trail json) : Located whole root (Expr.ofJson trail json) := by
  match json, h with
  | .object fields, h =>
    rw [Expr.ofJson]
    refine (located_tag h hroot).bind fun tagText htag => ?_
    have hfound := tag_eq_ok htag
    cases hkind : Tag.ofText? tagText with
    | none => exact located_fault h hroot ⟨fields, rfl, hfound, hkind⟩
    | some kind =>
      have hfield := @Expr.located_fieldOfJson hroot trail fields h
      cases kind with
      | int => exact (located_int h hroot (by decide)).bind fun _ _ => located_pure _
      | string => exact (located_string h hroot (by decide)).bind fun _ _ => located_pure _
      | bool => exact (located_bool h hroot (by decide)).bind fun _ _ => located_pure _
      | var => exact (located_string h hroot (by decide)).bind fun _ _ => located_pure _
      | list =>
        exact (Expr.located_itemsOfJson hroot h (by decide)).bind fun _ _ => located_pure _
      | binop =>
        exact (located_operator h hroot).bind fun _ _ => (hfield (by decide)).bind fun _ _ =>
          (hfield (by decide)).bind fun _ _ => located_pure _
      | letIn =>
        exact (located_string h hroot (by decide)).bind fun _ _ =>
          (hfield (by decide)).bind fun _ _ => (hfield (by decide)).bind fun _ _ => located_pure _
      | apply =>
        exact (hfield (by decide)).bind fun _ _ =>
          (Expr.located_itemsOfJson hroot h (by decide)).bind fun _ _ => located_pure _
      | lambda =>
        exact (located_strings h hroot (by decide)).bind fun _ _ =>
          (hfield (by decide)).bind fun _ _ => located_pure _
      | cases =>
        exact (hfield (by decide)).bind fun _ _ =>
          (Expr.located_clausesOfJson hroot h).bind fun _ _ => located_pure _
  | .null, h | .bool _, h | .int _, h | .real, h | .string _, h | .array _, h =>
    rw [Expr.ofJson]
    · exact located_fault h hroot ⟨rfl, by simp [Json.kind]⟩
    · simp
termination_by sizeOf json

theorem Expr.located_fieldOfJson (hroot : root ≠ "") {trail : Trail} {fields : List (Text × Json)}
    (h : whole.Reaches root trail (.object fields)) {name : String}
    (plain : Json.IsPlain name) :
    Located whole root (Expr.fieldOfJson trail name fields) := by
  rw [Expr.fieldOfJson_eq]
  refine located_elim h hroot plain fun value hfound hvalue => ?_
  have hlt := Json.sizeOf_lookup hfound
  split
  · exact Expr.located_ofJson hroot hvalue
  · rename_i hkind
    exact located_fault hvalue hroot ⟨⟨trail, rfl⟩, hkind⟩
termination_by sizeOf fields

theorem Expr.located_itemsOfJson (hroot : root ≠ "") {trail : Trail} {fields : List (Text × Json)}
    (h : whole.Reaches root trail (.object fields)) {name : String}
    (plain : Json.IsPlain name) :
    Located whole root (Expr.itemsOfJson trail name fields) := by
  rw [Expr.itemsOfJson_eq]
  refine located_listField h hroot plain fun values hfound hreached => ?_
  have hlt := Json.sizeOf_lookup_array hfound
  exact Expr.located_listOfJson hroot hreached
termination_by sizeOf fields

theorem Expr.located_clausesOfJson (hroot : root ≠ "") {trail : Trail}
    {fields : List (Text × Json)} (h : whole.Reaches root trail (.object fields)) :
    Located whole root (Expr.clausesOfJson trail "clauses" fields) := by
  rw [Expr.clausesOfJson_eq]
  refine located_listField h hroot (by decide) fun values hfound hreached => ?_
  have hlt := Json.sizeOf_lookup_array hfound
  exact Expr.located_clauseListOfJson hroot hreached
termination_by sizeOf fields

theorem Expr.located_listOfJson (hroot : root ≠ "") {trail : Trail} {index : Nat}
    {values : List Json} (h : whole.ItemsReached root trail index values) :
    Located whole root (Expr.listOfJson trail index values) := by
  cases values with
  | nil => exact located_pure _
  | cons value rest =>
    exact (Expr.located_ofJson hroot h.head).cons (Expr.located_listOfJson hroot h.tail)
termination_by sizeOf values

theorem Expr.located_clauseListOfJson (hroot : root ≠ "") {trail : Trail} {index : Nat}
    {values : List Json} (h : whole.ItemsReached root (trail.field "clauses") index values) :
    Located whole root (Expr.clauseListOfJson (trail.field "clauses") index values) := by
  cases values with
  | nil => exact located_pure _
  | cons value rest =>
    exact (Expr.located_clauseOfJson hroot h.head).cons (Expr.located_clauseListOfJson hroot h.tail)
termination_by sizeOf values

theorem Expr.located_clauseOfJson (hroot : root ≠ "") {trail : Trail} {index : Nat} {json : Json}
    (h : whole.Reaches root (trail.entry "clauses" index) json) :
    Located whole root (Expr.clauseOfJson (trail.entry "clauses" index) json) := by
  match json, h with
  | .object fields, h =>
    rw [Expr.clauseOfJson]
    refine (Pattern.located_fieldOfJson hroot h (by decide)).bind fun _ _ => ?_
    exact (Expr.located_fieldOfJson hroot h (by decide)).bind fun _ _ => located_pure _
  | .null, h | .bool _, h | .int _, h | .real, h | .string _, h | .array _, h =>
    rw [Expr.clauseOfJson]
    · exact located_fault h hroot ⟨⟨trail, index, rfl⟩, by simp [Json.kind]⟩
    · simp
termination_by sizeOf json

end

end
end CaseScript
