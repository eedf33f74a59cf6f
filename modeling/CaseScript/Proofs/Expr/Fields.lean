import CaseScript.Expr.OfJson
import CaseScript.Proofs.Except

/-!
# Fields of nodes

What looks through the fields of an object for a name reads the value that is looked up, and is at
a fault where there is none.
-/

namespace CaseScript
namespace Json

theorem lookup_cons (name : String) (key : Text) (value : Json) (rest : List (Text × Json)) :
    lookup name ((key, value) :: rest) =
      if Text.ofString name = key then some value else lookup name rest := by
  unfold lookup
  rw [List.lookup_cons]
  by_cases h : Text.ofString name = key
  · simp [h]
  · simp [h, beq_false_of_ne h]

theorem sizeOf_lookup {name : String} {fields : List (Text × Json)} {value : Json}
    (h : lookup name fields = some value) : sizeOf value < sizeOf fields := by
  induction fields with
  | nil => simp [lookup] at h
  | cons field rest ih =>
    obtain ⟨key, other⟩ := field
    rw [lookup_cons] at h
    split at h
    · obtain rfl := Option.some.inj h
      simp only [List.cons.sizeOf_spec, Prod.mk.sizeOf_spec]
      omega
    · have hlt := ih h
      simp only [List.cons.sizeOf_spec]
      omega

theorem sizeOf_lookup_array {name : String} {fields : List (Text × Json)} {items : List Json}
    (h : lookup name fields = some (.array items)) : sizeOf items < sizeOf fields := by
  have hlt := sizeOf_lookup h
  rw [Json.array.sizeOf_spec] at hlt
  omega

end Json

/-- What looks through the fields for a name reads the value that is looked up, or comes to the
end. -/
theorem Json.scan_eq {α : Type} {name : String} {scan : List (Text × Json) → α} {missing : α}
    {read : Json → α} (hnil : scan [] = missing)
    (hcons : ∀ key value rest, scan ((key, value) :: rest) =
      if Text.ofString name = key then read value else scan rest) (fields : List (Text × Json)) :
    scan fields = (lookup name fields).elim missing read := by
  induction fields with
  | nil => exact hnil
  | cons field rest ih =>
    obtain ⟨key, value⟩ := field
    rw [hcons, ih, lookup_cons]
    split <;> rfl

/-- The items of a list field, read by `read`. -/
def Decoded.listField {α : Type} (trail : Trail) (name : String) (read : List Json → Decoded α) :
    Json → Decoded α
  | .array items => read items
  | _ => fault (trail.field name) (.wrongKind name .array)

theorem Pattern.itemsOfJson_eq (trail : Trail) (name : String) (fields : List (Text × Json)) :
    itemsOfJson trail name fields =
      (Json.lookup name fields).elim (Decoded.fault trail (.missingField name))
        (Decoded.listField trail name (listOfJson (trail.field name) 0)) := by
  refine Json.scan_eq (by rw [itemsOfJson]) (fun key value rest => ?_) fields
  cases value <;> simp only [itemsOfJson, Decoded.listField]

theorem Expr.fieldOfJson_eq (trail : Trail) (name : String) (fields : List (Text × Json)) :
    fieldOfJson trail name fields =
      (Json.lookup name fields).elim (Decoded.fault trail (.missingField name)) fun value =>
        if value.kind = .object then ofJson (trail.field name) value
        else Decoded.fault (trail.field name) (.wrongKind name .object) :=
  Json.scan_eq (by rw [fieldOfJson]) (fun key value rest => by rw [fieldOfJson]) fields

theorem Expr.itemsOfJson_eq (trail : Trail) (name : String) (fields : List (Text × Json)) :
    itemsOfJson trail name fields =
      (Json.lookup name fields).elim (Decoded.fault trail (.missingField name))
        (Decoded.listField trail name (listOfJson (trail.field name) 0)) := by
  refine Json.scan_eq (by rw [itemsOfJson]) (fun key value rest => ?_) fields
  cases value <;> simp only [itemsOfJson, Decoded.listField]

theorem Expr.clausesOfJson_eq (trail : Trail) (name : String) (fields : List (Text × Json)) :
    clausesOfJson trail name fields =
      (Json.lookup name fields).elim (Decoded.fault trail (.missingField name))
        (Decoded.listField trail name (clauseListOfJson (trail.field name) 0)) := by
  refine Json.scan_eq (by rw [clausesOfJson]) (fun key value rest => ?_) fields
  cases value <;> simp only [clausesOfJson, Decoded.listField]

namespace Decoded

variable {α : Type} {trail : Trail} {fields : List (Text × Json)}

theorem field_eq {name : String} {kind : Json.Kind} {read? : Json → Option α} :
    field kind read? trail name fields =
      (Json.lookup name fields).elim (fault trail (.missingField name)) fun value =>
        (read? value).elim (fault (trail.field name) (.wrongKind name kind)) pure := by
  unfold field
  cases Json.lookup name fields with
  | none => rfl
  | some value => cases hread : read? value <;> simp [hread]

theorem field_eq_ok {name : String} {kind : Json.Kind} {read? : Json → Option α} {a : α}
    (h : field kind read? trail name fields = .ok a) :
    ∃ value, Json.lookup name fields = some value ∧ read? value = some a := by
  unfold field at h
  split at h
  · cases h
  · rename_i value hfound
    split at h
    · cases h
    · rename_i result hread
      cases h
      exact ⟨value, hfound, hread⟩

theorem tag_eq_ok {tagText : Text} (h : tag trail fields = .ok tagText) :
    Json.lookup "type" fields = some (.string tagText) := by
  unfold tag at h
  split at h
  · rename_i s hfound
    cases h
    exact hfound
  · cases h

theorem string_eq_ok {name : String} {s : Text} (h : string trail name fields = .ok s) :
    Json.lookup name fields = some (.string s) := by
  obtain ⟨value, hfound, hread⟩ := field_eq_ok h
  rw [hfound, Json.string?_eq_some.mp hread]

theorem int_eq_ok {name : String} {n : Int} (h : int trail name fields = .ok n) :
    Json.lookup name fields = some (.int n) := by
  obtain ⟨value, hfound, hread⟩ := field_eq_ok h
  rw [hfound, Json.int?_eq_some.mp hread]

theorem bool_eq_ok {name : String} {b : Bool} (h : bool trail name fields = .ok b) :
    Json.lookup name fields = some (.bool b) := by
  obtain ⟨value, hfound, hread⟩ := field_eq_ok h
  rw [hfound, Json.bool?_eq_some.mp hread]

theorem list_eq_ok {name : String} {values : List Json}
    (h : list trail name fields = .ok values) :
    Json.lookup name fields = some (.array values) := by
  obtain ⟨value, hfound, hread⟩ := field_eq_ok h
  rw [hfound, Json.array?_eq_some.mp hread]

theorem listField_eq_ok {α : Type} {name : String} {read : List Json → Decoded α} {a : α}
    (h : (Json.lookup name fields).elim (fault trail (.missingField name))
      (listField trail name read) = .ok a) :
    ∃ values, Json.lookup name fields = some (.array values) ∧ read values = .ok a := by
  cases hfound : Json.lookup name fields with
  | none =>
    rw [hfound] at h
    cases h
  | some value =>
    rw [hfound] at h
    cases value with
    | array values => exact ⟨values, rfl, h⟩
    | _ => cases h

theorem cons_eq_ok {α : Type} {x : Decoded α} {xs : Decoded (List α)} {all : List α}
    (h : x.cons xs = .ok all) :
    ∃ item items, x = .ok item ∧ xs = .ok items ∧ item :: items = all := by
  cases x with
  | error faults => cases xs <;> cases h
  | ok item =>
    cases xs with
    | error more => cases h
    | ok items => exact ⟨item, items, rfl, rfl, Except.ok.inj h⟩

theorem entries_eq_ok {name : String} {index : Nat} {values : List Json} {all : List Text}
    (h : entries trail name index values = .ok all) : values = all.map .string := by
  induction values generalizing index all with
  | nil => cases h; rfl
  | cons value rest ih =>
    rw [entries] at h
    split at h
    · cases h
    · rename_i s hs
      obtain ⟨more, hmore, heq⟩ := except_bind_eq_ok.mp h
      cases heq
      rw [Json.string?_eq_some.mp hs, ih hmore]
      rfl

theorem strings_eq_ok {name : String} {all : List Text}
    (h : strings trail name fields = .ok all) :
    Json.lookup name fields = some (.array (all.map .string)) := by
  obtain ⟨values, hvalues, hall⟩ := except_bind_eq_ok.mp h
  rw [list_eq_ok hvalues, entries_eq_ok hall]

theorem operator_eq_ok {op : Text} (h : operator trail fields = .ok op) :
    Json.lookup "op" fields = some (.string op) ∧ op.isOperator = true := by
  obtain ⟨s, hs, hop⟩ := except_bind_eq_ok.mp h
  split at hop
  · rename_i hvalid
    cases hop
    exact ⟨string_eq_ok hs, hvalid⟩
  · cases hop

end Decoded
end CaseScript
