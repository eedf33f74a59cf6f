import CaseScript.Expr.Source
import CaseScript.Proofs.Diagnostic.Trail
import CaseScript.Proofs.Expr.Fields

/-!
# Readings with a record

A decoder reads a value part by part. When it finds something wrong it writes an error into its
record and gives up the node that it is at, without saying why; the items of a list are all read,
even behind one that was given up. Such a reading comes to the same end as the one that passes its
faults on: it is given up just if there are faults, and these are what it adds to the record.
-/

namespace CaseScript

/-- A reading that may be given up. What it finds wrong goes into a record, behind what stands there
already. -/
def Recording (α : Type) : Type := List Diagnostic → Option α × List Diagnostic

namespace Recording

variable {α β : Type}

instance : Monad Recording where
  pure a := fun record => (some a, record)
  bind x f := fun record =>
    match x record with
    | (none, record) => (none, record)
    | (some a, record) => f a record

/-- Records an error at `trail` and gives up. -/
def fault (trail : Trail) (cause : ShapeFault.Cause) : Recording α := fun record =>
  (none, record ++ [ShapeFault.diagnostic ⟨trail, cause⟩])

/-- A first item and the items after it. They are read even if the first one is given up, but then
the list is given up as well. -/
def cons (x : Recording α) (xs : Recording (List α)) : Recording (List α) := fun record =>
  let (item?, record) := x record
  let (items?, record) := xs record
  (item?.bind fun item => items?.map (item :: ·), record)

/-- What is recorded by a reading on its own. -/
def errors (x : Recording α) : List Diagnostic := (x []).2

def field (kind : Json.Kind) (read? : Json → Option α) (trail : Trail) (name : String)
    (fields : List (Text × Json)) : Recording α :=
  match Json.lookup name fields with
  | none => fault trail (.missingField name)
  | some value =>
    match read? value with
    | none => fault (trail.field name) (.wrongKind name kind)
    | some a => pure a

def string : Trail → String → List (Text × Json) → Recording Text := field .string Json.string?

/-- The entries of a list of strings, up to the first that is none. -/
def entries (trail : Trail) (name : String) (index : Nat) : List Json → Recording (List Text)
  | [] => pure []
  | value :: rest =>
    match value.string? with
    | none => fault (trail.entry name index) (.entryNotString name)
    | some s => return s :: (← entries trail name (index + 1) rest)

def strings (trail : Trail) (name : String) (fields : List (Text × Json)) :
    Recording (List Text) := do
  entries trail name 0 (← field .array Json.array? trail name fields)

def operator (trail : Trail) (fields : List (Text × Json)) : Recording Text := do
  let op ← string trail "op" fields
  if op.isOperator then pure op else fault (trail.field "op") .badOperator

def tag (trail : Trail) (fields : List (Text × Json)) : Recording Text :=
  match Json.lookup "type" fields with
  | some (.string s) => pure s
  | _ => fault trail .missingTag

/-- A list in a field, read by `read`. -/
def listField (trail : Trail) (name : String) (read : List Json → Recording α) :
    Json → Recording α
  | .array items => read items
  | _ => fault (trail.field name) (.wrongKind name .array)

end Recording

open Recording

namespace Pattern

mutual

def recording (trail : Trail) (json : Json) : Recording Pattern :=
  match json with
  | .object fields => do
    let tag ← tag trail fields
    match Tag.ofText? tag with
    | some .wildcard => return wildcard
    | some .var => return var (← string trail "name" fields)
    | some .int => return literal (.int (← field .integer Json.int? trail "value" fields))
    | some .string => return literal (.string (← string trail "value" fields))
    | some .bool => return literal (.bool (← field .boolean Json.bool? trail "value" fields))
    | some .list => return list (← itemsRecording trail "items" fields)
    | some .listTail =>
      let items ← itemsRecording trail "items" fields
      return listTail items (← string trail "tail" fields)
    | none => fault trail (.unknownPattern tag)
  | other => fault trail (.notObject other.kind)

def itemsRecording (trail : Trail) (name : String) : List (Text × Json) → Recording (List Pattern)
  | [] => fault trail (.missingField name)
  | (key, value) :: rest =>
    if Text.ofString name = key then
      match value with
      | .array items => listRecording (trail.field name) 0 items
      | _ => fault (trail.field name) (.wrongKind name .array)
    else itemsRecording trail name rest

def listRecording (trail : Trail) (index : Nat) : List Json → Recording (List Pattern)
  | [] => pure []
  | item :: rest => (recording (trail.item index) item).cons (listRecording trail (index + 1) rest)

end

def fieldRecording (trail : Trail) (name : String) (fields : List (Text × Json)) :
    Recording Pattern :=
  match Json.lookup name fields with
  | none => fault trail (.missingField name)
  | some value =>
    if value.kind = .object then recording (trail.field name) value
    else fault (trail.field name) (.wrongKind name .object)

end Pattern

namespace Expr

mutual

def recording (trail : Trail) (json : Json) : Recording Expr :=
  match json with
  | .object fields => do
    let tag ← tag trail fields
    match Tag.ofText? tag with
    | some .int => return literal (.int (← field .integer Json.int? trail "value" fields))
    | some .string => return literal (.string (← string trail "value" fields))
    | some .bool => return literal (.bool (← field .boolean Json.bool? trail "value" fields))
    | some .var => return var (← string trail "name" fields)
    | some .list => return list (← itemsRecording trail "items" fields)
    | some .binop =>
      let op ← operator trail fields
      let left ← fieldRecording trail "left" fields
      return binop op left (← fieldRecording trail "right" fields)
    | some .letIn =>
      let name ← string trail "name" fields
      let value ← fieldRecording trail "value" fields
      return letIn name value (← fieldRecording trail "body" fields)
    | some .apply =>
      let function ← fieldRecording trail "function" fields
      return apply function (← itemsRecording trail "args" fields)
    | some .lambda =>
      let params ← strings trail "params" fields
      return lambda params (← fieldRecording trail "body" fields)
    | some .cases =>
      let subject ← fieldRecording trail "subject" fields
      return cases subject (← clausesRecording trail "clauses" fields)
    | none => fault trail (.unknownExpr tag)
  | other => fault trail (.notObject other.kind)

def fieldRecording (trail : Trail) (name : String) : List (Text × Json) → Recording Expr
  | [] => fault trail (.missingField name)
  | (key, value) :: rest =>
    if Text.ofString name = key then
      if value.kind = .object then recording (trail.field name) value
      else fault (trail.field name) (.wrongKind name .object)
    else fieldRecording trail name rest

def itemsRecording (trail : Trail) (name : String) : List (Text × Json) → Recording (List Expr)
  | [] => fault trail (.missingField name)
  | (key, value) :: rest =>
    if Text.ofString name = key then
      match value with
      | .array items => listRecording (trail.field name) 0 items
      | _ => fault (trail.field name) (.wrongKind name .array)
    else itemsRecording trail name rest

def listRecording (trail : Trail) (index : Nat) : List Json → Recording (List Expr)
  | [] => pure []
  | item :: rest => (recording (trail.item index) item).cons (listRecording trail (index + 1) rest)

def clausesRecording (trail : Trail) (name : String) : List (Text × Json) → Recording (List Clause)
  | [] => fault trail (.missingField name)
  | (key, value) :: rest =>
    if Text.ofString name = key then
      match value with
      | .array items => clauseListRecording (trail.field name) 0 items
      | _ => fault (trail.field name) (.wrongKind name .array)
    else clausesRecording trail name rest

def clauseListRecording (trail : Trail) (index : Nat) : List Json → Recording (List Clause)
  | [] => pure []
  | item :: rest =>
    (clauseRecording (trail.item index) item).cons (clauseListRecording trail (index + 1) rest)

def clauseRecording (trail : Trail) (json : Json) : Recording Clause :=
  match json with
  | .object fields => do
    let pattern ← Pattern.fieldRecording trail "pattern" fields
    return ⟨pattern, ← fieldRecording trail "body" fields⟩
  | _ => fault trail .clauseNotObject

end

end Expr

/-! ## Recordings and readings -/

/-- The faults that a reading passes on. -/
def Decoded.faults {α : Type} : Decoded α → List ShapeFault
  | .ok _ => []
  | .error faults => faults

/-- Does a recording come to the same end as a reading, with the faults of the reading as its
errors? All of them stand inside the value at `trail`, each to the left of those behind it. -/
structure Recording.Records {α : Type} (trail : Trail) (r : Recording α) (x : Decoded α) :
    Prop where
  run_eq : ∀ record, r record = (x.toOption, record ++ x.faults.map ShapeFault.diagnostic)
  inside : ∀ fault ∈ x.faults, trail.Leads fault.trail
  ordered : (x.faults.map ShapeFault.trail).Pairwise Trail.LeftOf

/-- The same for the items from `index` on of a list at `trail`. -/
structure Recording.RecordsItems {α : Type} (trail : Trail) (index : Nat) (r : Recording (List α))
    (x : Decoded (List α)) : Prop where
  run_eq : ∀ record, r record = (x.toOption, record ++ x.faults.map ShapeFault.diagnostic)
  inside : ∀ fault ∈ x.faults, ∃ i, index ≤ i ∧ (trail.item i).Leads fault.trail
  ordered : (x.faults.map ShapeFault.trail).Pairwise Trail.LeftOf

theorem Decoded.faults_cons {α : Type} (x : Decoded α) (xs : Decoded (List α)) :
    (x.cons xs).faults = x.faults ++ xs.faults := by
  cases x with
  | ok item => cases xs <;> rfl
  | error faults =>
    cases xs with
    | ok items => exact (List.append_nil faults).symm
    | error more => rfl

namespace Recording

variable {α β : Type} {trail : Trail} {r : Recording α} {x : Decoded α}

theorem Records.errors_eq (h : Records trail r x) :
    r.errors = x.faults.map ShapeFault.diagnostic := by
  rw [errors, h.run_eq, List.nil_append]

theorem records_pure (a : α) : Records trail (pure a) (pure a) where
  run_eq record := by
    rw [Decoded.faults.eq_def]
    exact congrArg (Prod.mk (some a)) (List.append_nil record).symm
  inside _ h := absurd h List.not_mem_nil
  ordered := List.Pairwise.nil

theorem records_fault {place : Trail} (h : trail.Leads place) (cause : ShapeFault.Cause) :
    Records trail (fault place cause : Recording α) (Decoded.fault place cause) where
  run_eq record := rfl
  inside fault hfault := by
    rw [List.mem_singleton.mp hfault]
    exact h
  ordered := List.pairwise_singleton _ _

/-- Only one of two readings in a row is at fault, since the second is left out behind a fault of
the first. -/
theorem Records.bind (h : Records trail r x) {g : α → Recording β} {f : α → Decoded β}
    (hnext : ∀ a, x = .ok a → Records trail (g a) (f a)) : Records trail (r >>= g) (x >>= f) := by
  cases x with
  | error faults =>
    constructor
    · intro record
      change (match r record with | (none, record) => _ | (some a, record) => g a record) = _
      rw [h.run_eq record]
      rfl
    · exact h.inside
    · exact h.ordered
  | ok a =>
    have hsecond := hnext a rfl
    constructor
    · intro record
      change (match r record with | (none, record) => _ | (some a, record) => g a record) = _
      rw [h.run_eq record]
      have hrecord : record ++ (Decoded.faults (.ok a : Decoded α)).map ShapeFault.diagnostic =
          record := List.append_nil record
      rw [hrecord]
      exact hsecond.run_eq record
    · exact hsecond.inside
    · exact hsecond.ordered

theorem Records.map (h : Records trail r x) (f : α → β) :
    Records trail (r >>= fun a => pure (f a)) (x >>= fun a => pure (f a)) :=
  h.bind fun a _ => records_pure (f a)

theorem Records.of_field {name : String} (h : Records (trail.field name) r x) :
    Records trail r x where
  run_eq := h.run_eq
  inside fault hfault := (h.inside fault hfault).of_field
  ordered := h.ordered

/-! ### Fields -/

section Fields

variable {name : String} {fields : List (Text × Json)}

theorem records_elim {read : Json → Recording α} {read' : Json → Decoded α}
    (h : ∀ value, Json.lookup name fields = some value → Records trail (read value) (read' value)) :
    Records trail ((Json.lookup name fields).elim (fault trail (.missingField name)) read)
      ((Json.lookup name fields).elim (Decoded.fault trail (.missingField name)) read') := by
  cases hfound : Json.lookup name fields with
  | none => exact records_fault .here _
  | some value => exact h value hfound

theorem records_field (kind : Json.Kind) (read? : Json → Option α) :
    Records trail (field kind read? trail name fields)
      (Decoded.field kind read? trail name fields) := by
  unfold field Decoded.field
  cases Json.lookup name fields with
  | none => exact records_fault .here _
  | some value =>
    dsimp only
    cases read? value with
    | none => exact records_fault (.field name .here) _
    | some a => exact records_pure a

theorem records_string :
    Records trail (string trail name fields) (Decoded.string trail name fields) :=
  records_field .string Json.string?

theorem records_entries (index : Nat) (values : List Json) :
    Records trail (entries trail name index values) (Decoded.entries trail name index values) := by
  induction values generalizing index with
  | nil => exact records_pure []
  | cons value rest ih =>
    rw [entries, Decoded.entries]
    cases value.string? with
    | none => exact records_fault (.item index (.field name .here)) _
    | some s => exact (ih (index + 1)).map fun more => s :: more

theorem records_strings :
    Records trail (strings trail name fields) (Decoded.strings trail name fields) := by
  apply (records_field .array Json.array?).bind
  intro values _
  exact records_entries 0 values

theorem records_operator :
    Records trail (operator trail fields) (Decoded.operator trail fields) := by
  apply records_string.bind
  intro op _
  by_cases hvalid : op.isOperator = true
  · rw [if_pos hvalid, if_pos hvalid]
    exact records_pure op
  · rw [if_neg hvalid, if_neg hvalid]
    exact records_fault (.field "op" .here) _

theorem records_tag : Records trail (tag trail fields) (Decoded.tag trail fields) := by
  unfold tag Decoded.tag
  cases Json.lookup "type" fields with
  | none => exact records_fault .here _
  | some value =>
    cases value with
    | string s => exact records_pure s
    | _ => exact records_fault .here _

/-! ### Lists -/

theorem recordsItems_nil (index : Nat) :
    RecordsItems trail index (pure [] : Recording (List α)) (pure []) where
  run_eq record := congrArg (Prod.mk (some [])) (List.append_nil record).symm
  inside _ h := absurd h List.not_mem_nil
  ordered := List.Pairwise.nil

/-- The errors of the first item stand to the left of those of all others. -/
theorem Records.cons {index : Nat} {rs : Recording (List α)} {xs : Decoded (List α)}
    (h : Records (trail.item index) r x) (hrest : RecordsItems trail (index + 1) rs xs) :
    RecordsItems trail index (r.cons rs) (x.cons xs) where
  run_eq record := by
    simp only [Recording.cons, h.run_eq, hrest.run_eq, Decoded.faults_cons, List.map_append,
      List.append_assoc]
    cases x <;> cases xs <;> rfl
  inside fault hfault := by
    rw [Decoded.faults_cons, List.mem_append] at hfault
    rcases hfault with hfirst | hlater
    · exact ⟨index, Nat.le_refl index, h.inside fault hfirst⟩
    · obtain ⟨i, hi, hleads⟩ := hrest.inside fault hlater
      exact ⟨i, Nat.le_of_succ_le hi, hleads⟩
  ordered := by
    rw [Decoded.faults_cons, List.map_append, List.pairwise_append]
    refine ⟨h.ordered, hrest.ordered, ?_⟩
    intro place hplace other hother
    obtain ⟨first, hfirst, rfl⟩ := List.mem_map.mp hplace
    obtain ⟨later, hlater, rfl⟩ := List.mem_map.mp hother
    obtain ⟨i, hi, hleads⟩ := hrest.inside later hlater
    exact ⟨trail, index, i, hi, h.inside first hfirst, hleads⟩

theorem records_listField {rs : List Json → Recording (List α)}
    {read : List Json → Decoded (List α)}
    (h : ∀ values, Json.lookup name fields = some (.array values) →
      RecordsItems (trail.field name) 0 (rs values) (read values)) :
    Records trail
      ((Json.lookup name fields).elim (fault trail (.missingField name)) (listField trail name rs))
      ((Json.lookup name fields).elim (Decoded.fault trail (.missingField name))
        (Decoded.listField trail name read)) := by
  apply records_elim
  intro value hfound
  cases value with
  | array values =>
    have hitems := h values hfound
    constructor
    · exact hitems.run_eq
    · intro fault hfault
      obtain ⟨i, -, hleads⟩ := hitems.inside fault hfault
      exact hleads.of_item.of_field
    · exact hitems.ordered
  | _ => exact records_fault (.field name .here) _

end Fields

end Recording

theorem Pattern.itemsRecording_eq (trail : Trail) (name : String) (fields : List (Text × Json)) :
    itemsRecording trail name fields =
      (Json.lookup name fields).elim (Recording.fault trail (.missingField name))
        (Recording.listField trail name (listRecording (trail.field name) 0)) := by
  refine Json.scan_eq (by rw [itemsRecording]) (fun key value rest => ?_) fields
  cases value <;> simp only [itemsRecording, Recording.listField]

theorem Expr.fieldRecording_eq (trail : Trail) (name : String) (fields : List (Text × Json)) :
    fieldRecording trail name fields =
      (Json.lookup name fields).elim (Recording.fault trail (.missingField name)) fun value =>
        if value.kind = .object then recording (trail.field name) value
        else Recording.fault (trail.field name) (.wrongKind name .object) :=
  Json.scan_eq (by rw [fieldRecording]) (fun key value rest => by rw [fieldRecording]) fields

theorem Expr.itemsRecording_eq (trail : Trail) (name : String) (fields : List (Text × Json)) :
    itemsRecording trail name fields =
      (Json.lookup name fields).elim (Recording.fault trail (.missingField name))
        (Recording.listField trail name (listRecording (trail.field name) 0)) := by
  refine Json.scan_eq (by rw [itemsRecording]) (fun key value rest => ?_) fields
  cases value <;> simp only [itemsRecording, Recording.listField]

theorem Expr.clausesRecording_eq (trail : Trail) (name : String) (fields : List (Text × Json)) :
    clausesRecording trail name fields =
      (Json.lookup name fields).elim (Recording.fault trail (.missingField name))
        (Recording.listField trail name (clauseListRecording (trail.field name) 0)) := by
  refine Json.scan_eq (by rw [clausesRecording]) (fun key value rest => ?_) fields
  cases value <;> simp only [clausesRecording, Recording.listField]

mutual

theorem Pattern.records_recording (trail : Trail) (json : Json) :
    Records trail (Pattern.recording trail json) (Pattern.ofJson trail json) := by
  match json with
  | .object fields =>
    rw [Pattern.recording, Pattern.ofJson]
    apply records_tag.bind
    intro text _
    have hitems := Pattern.records_itemsRecording trail "items" fields
    cases Tag.ofText? text with
    | none => exact records_fault .here _
    | some kind =>
      cases kind with
      | wildcard => exact records_pure _
      | var => exact records_string.map _
      | int => exact (records_field .integer Json.int?).map _
      | string => exact records_string.map _
      | bool => exact (records_field .boolean Json.bool?).map _
      | list => exact hitems.map _
      | listTail =>
        apply hitems.bind
        intro items _
        exact records_string.map _
  | .null | .bool _ | .int _ | .real | .string _ | .array _ =>
    rw [Pattern.recording, Pattern.ofJson]
    · exact records_fault .here _
    · simp
    · simp
termination_by sizeOf json
decreasing_by
  all_goals
    simp only [Json.object.sizeOf_spec]
    omega

theorem Pattern.records_itemsRecording (trail : Trail) (name : String)
    (fields : List (Text × Json)) :
    Records trail (Pattern.itemsRecording trail name fields)
      (Pattern.itemsOfJson trail name fields) := by
  rw [Pattern.itemsRecording_eq, Pattern.itemsOfJson_eq]
  apply records_listField
  intro values hfound
  have hlt := Json.sizeOf_lookup_array hfound
  exact Pattern.records_listRecording (trail.field name) 0 values
termination_by sizeOf fields

theorem Pattern.records_listRecording (trail : Trail) (index : Nat) (values : List Json) :
    RecordsItems trail index (Pattern.listRecording trail index values)
      (Pattern.listOfJson trail index values) := by
  cases values with
  | nil => exact recordsItems_nil index
  | cons value rest =>
    exact (Pattern.records_recording (trail.item index) value).cons
      (Pattern.records_listRecording trail (index + 1) rest)
termination_by sizeOf values

end

theorem Pattern.records_fieldRecording (trail : Trail) (name : String)
    (fields : List (Text × Json)) :
    Records trail (Pattern.fieldRecording trail name fields)
      (Pattern.fieldOfJson trail name fields) := by
  unfold Pattern.fieldRecording Pattern.fieldOfJson
  cases Json.lookup name fields with
  | none => exact records_fault .here _
  | some value =>
    cases value with
    | object inner => exact (Pattern.records_recording (trail.field name) _).of_field
    | _ => exact records_fault (.field name .here) _

mutual

theorem Expr.records_recording (trail : Trail) (json : Json) :
    Records trail (Expr.recording trail json) (Expr.ofJson trail json) := by
  match json with
  | .object fields =>
    rw [Expr.recording, Expr.ofJson]
    apply records_tag.bind
    intro text _
    have hfield := fun name => Expr.records_fieldRecording trail name fields
    have hitems := fun name => Expr.records_itemsRecording trail name fields
    cases Tag.ofText? text with
    | none => exact records_fault .here _
    | some kind =>
      cases kind with
      | int => exact (records_field .integer Json.int?).map _
      | string => exact records_string.map _
      | bool => exact (records_field .boolean Json.bool?).map _
      | var => exact records_string.map _
      | list => exact (hitems "items").map _
      | binop =>
        apply records_operator.bind
        intro op _
        apply (hfield "left").bind
        intro left _
        exact (hfield "right").map _
      | letIn =>
        apply records_string.bind
        intro name _
        apply (hfield "value").bind
        intro value _
        exact (hfield "body").map _
      | apply =>
        apply (hfield "function").bind
        intro function _
        exact (hitems "args").map _
      | lambda =>
        apply records_strings.bind
        intro params _
        exact (hfield "body").map _
      | cases =>
        apply (hfield "subject").bind
        intro subject _
        exact (Expr.records_clausesRecording trail "clauses" fields).map _
  | .null | .bool _ | .int _ | .real | .string _ | .array _ =>
    rw [Expr.recording, Expr.ofJson]
    · exact records_fault .here _
    · simp
    · simp
termination_by sizeOf json

theorem Expr.records_fieldRecording (trail : Trail) (name : String) (fields : List (Text × Json)) :
    Records trail (Expr.fieldRecording trail name fields) (Expr.fieldOfJson trail name fields) := by
  rw [Expr.fieldRecording_eq, Expr.fieldOfJson_eq]
  apply records_elim
  intro value hfound
  have hlt := Json.sizeOf_lookup hfound
  by_cases hkind : value.kind = .object
  · rw [if_pos hkind, if_pos hkind]
    exact (Expr.records_recording (trail.field name) value).of_field
  · rw [if_neg hkind, if_neg hkind]
    exact records_fault (.field name .here) _
termination_by sizeOf fields

theorem Expr.records_itemsRecording (trail : Trail) (name : String) (fields : List (Text × Json)) :
    Records trail (Expr.itemsRecording trail name fields) (Expr.itemsOfJson trail name fields) := by
  rw [Expr.itemsRecording_eq, Expr.itemsOfJson_eq]
  apply records_listField
  intro values hfound
  have hlt := Json.sizeOf_lookup_array hfound
  exact Expr.records_listRecording (trail.field name) 0 values
termination_by sizeOf fields

theorem Expr.records_listRecording (trail : Trail) (index : Nat) (values : List Json) :
    RecordsItems trail index (Expr.listRecording trail index values)
      (Expr.listOfJson trail index values) := by
  cases values with
  | nil => exact recordsItems_nil index
  | cons value rest =>
    exact (Expr.records_recording (trail.item index) value).cons
      (Expr.records_listRecording trail (index + 1) rest)
termination_by sizeOf values

theorem Expr.records_clausesRecording (trail : Trail) (name : String)
    (fields : List (Text × Json)) :
    Records trail (Expr.clausesRecording trail name fields)
      (Expr.clausesOfJson trail name fields) := by
  rw [Expr.clausesRecording_eq, Expr.clausesOfJson_eq]
  apply records_listField
  intro values hfound
  have hlt := Json.sizeOf_lookup_array hfound
  exact Expr.records_clauseListRecording (trail.field name) 0 values
termination_by sizeOf fields

theorem Expr.records_clauseListRecording (trail : Trail) (index : Nat) (values : List Json) :
    RecordsItems trail index (Expr.clauseListRecording trail index values)
      (Expr.clauseListOfJson trail index values) := by
  cases values with
  | nil => exact recordsItems_nil index
  | cons value rest =>
    exact (Expr.records_clauseRecording (trail.item index) value).cons
      (Expr.records_clauseListRecording trail (index + 1) rest)
termination_by sizeOf values

theorem Expr.records_clauseRecording (trail : Trail) (json : Json) :
    Records trail (Expr.clauseRecording trail json) (Expr.clauseOfJson trail json) := by
  match json with
  | .object fields =>
    rw [Expr.clauseRecording, Expr.clauseOfJson]
    apply (Pattern.records_fieldRecording trail "pattern" fields).bind
    intro pattern _
    exact (Expr.records_fieldRecording trail "body" fields).map _
  | .null | .bool _ | .int _ | .real | .string _ | .array _ =>
    rw [Expr.clauseRecording, Expr.clauseOfJson]
    · exact records_fault .here _
    · simp
    · simp
termination_by sizeOf json

end

end CaseScript
