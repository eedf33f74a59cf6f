import CaseScript.Proofs.Assoc
import CaseScript.Proofs.Js.Semantics

/-!
# What patterns match

Which values a pattern matches, and what its names stand for in a value that it matches. Both follow
the structure of the pattern alone.
-/

namespace CaseScript
namespace Pattern

mutual

def Matches : Pattern → Js.Value → Prop
  | literal value, v => v = .ofLiteral value
  | var _, _ | wildcard, _ => True
  | list items, .array values => values.length = items.length ∧ MatchesItems items values
  | listTail items _, .array values => items.length ≤ values.length ∧ MatchesItems items values
  | list _, _ | listTail _ _, _ => False

/-- Do the first values match the patterns, one by one? -/
def MatchesItems : List Pattern → List Js.Value → Prop
  | [], _ => True
  | p :: rest, v :: values => p.Matches v ∧ MatchesItems rest values
  | _ :: _, [] => False

end

mutual

/-- The names of a pattern from left to right, a tail after the items before it. -/
def names : Pattern → List Text
  | literal _ | wildcard => []
  | var name => [name]
  | list items => itemNames items
  | listTail items tail => itemNames items ++ [tail]

def itemNames : List Pattern → List Text
  | [] => []
  | p :: rest => p.names ++ itemNames rest

end

mutual

/-- What each name of a pattern stands for in a value that matches, in the order of the names. -/
def parts : Pattern → Js.Value → List (Text × Js.Value)
  | var name, v => [(name, v)]
  | list items, .array values => itemParts items values
  | listTail items tail, .array values =>
    itemParts items values ++ [(tail, .array (values.drop items.length))]
  | _, _ => []

def itemParts : List Pattern → List Js.Value → List (Text × Js.Value)
  | p :: rest, v :: values => p.parts v ++ itemParts rest values
  | _, _ => []

end

/-- The names that a pattern binds, each once, with the last part that bears the name. -/
def assigned (p : Pattern) (v : Js.Value) : List (Text × Js.Value) := Assoc.insertAll [] (p.parts v)

/-- Does the pattern match by its form alone? -/
def catchesAll : Pattern → Bool
  | var _ | wildcard => true
  | _ => false

theorem matches_of_catchesAll {p : Pattern} (h : p.catchesAll = true) (v : Js.Value) :
    p.Matches v := by
  cases p <;> simp_all [catchesAll, Matches]

/-- Only such a pattern matches every value; all others fail on `undefined`. -/
theorem catchesAll_iff_forall_matches {p : Pattern} :
    p.catchesAll = true ↔ ∀ v, p.Matches v := by
  refine ⟨matches_of_catchesAll, fun h => ?_⟩
  have hu := h .undefined
  cases p with
  | literal value => cases value <;> simp [Matches, Js.Value.ofLiteral] at hu
  | var name => rfl
  | wildcard => rfl
  | list items => simp [Matches] at hu
  | listTail items tail => simp [Matches] at hu

mutual

theorem names_parts {p : Pattern} {v : Js.Value} (h : p.Matches v) :
    (p.parts v).map Prod.fst = p.names := by
  cases p with
  | literal value => simp [parts, names]
  | var name => rfl
  | wildcard => simp [parts, names]
  | list items =>
    cases v with
    | array values => simpa [parts, names] using names_itemParts h.2
    | _ => simp [Matches] at h
  | listTail items tail =>
    cases v with
    | array values => simpa [parts, names] using names_itemParts h.2
    | _ => simp [Matches] at h

theorem names_itemParts {items : List Pattern} {values : List Js.Value}
    (h : MatchesItems items values) : (itemParts items values).map Prod.fst = itemNames items := by
  cases items with
  | nil => simp [itemParts, itemNames]
  | cons p rest =>
    cases values with
    | nil => simp [MatchesItems] at h
    | cons v values => simp [itemParts, itemNames, names_parts h.1, names_itemParts h.2]

end

theorem lookup_assigned (p : Pattern) (v : Js.Value) (name : Text) :
    (p.assigned v).lookup name = (p.parts v).reverse.lookup name := by
  rw [assigned, Assoc.lookup_insertAll]
  simp

theorem nodup_names_assigned (p : Pattern) (v : Js.Value) :
    ((p.assigned v).map Prod.fst).Nodup :=
  Assoc.nodup_keys_insertAll List.nodup_nil

theorem mem_names_assigned {p : Pattern} {v : Js.Value} (h : p.Matches v) {name : Text} :
    name ∈ (p.assigned v).map Prod.fst ↔ name ∈ p.names := by
  rw [assigned, Assoc.mem_keys_insertAll, names_parts h]
  simp

end Pattern
end CaseScript
