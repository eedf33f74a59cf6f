import CaseScript.Proofs.Pattern.Lowering
import CaseScript.Proofs.Pattern.Matching
import CaseScript.Proofs.Script.Code

/-!
# Exactness of lowering

The checks of a lowered pattern can be tried on every value without an exception, and all of them
hold just for the values that the pattern matches. The bindings then refer to the matched parts. The
invariant of the walk is that the current reference has a value: the check of a list's length comes
before every item of the list is looked at, so an item that is referred to exists.
-/

namespace CaseScript

open Js

variable {σ : Type} {scope : Scope} {denotes : σ → Expression}

/-! ## Conjunctions -/

theorem truthy_foldl_and (tests : List Expression) (first : Expression) :
    ((tests.foldl (.operation "&&") first).eval scope).map Value.truthy =
      allHold scope (first :: tests) := by
  induction tests generalizing first with
  | nil =>
    rw [List.foldl_nil, allHold]
    cases first.eval scope with
    | none => rfl
    | some value => cases h : value.truthy <;> simp [h]
  | cons test rest ih =>
    rw [List.foldl_cons, ih, allHold, allHold, Expression.eval, operate]
    cases first.eval scope with
    | none => rfl
    | some value => cases h : value.truthy <;> simp [h, allHold]

theorem truthy_conjunction (tests : List Expression) :
    ((conjunction tests).eval scope).map Value.truthy = allHold scope tests := by
  cases tests with
  | nil => rfl
  | cons test rest => exact truthy_foldl_and rest test

/-- Trying checks one by one is trying all their tests. -/
theorem allHold_code (checks : List (Check σ)) :
    allHold scope (checks.map (Check.code denotes)) =
      allHold scope (checks.flatMap (Check.tests denotes)) := by
  induction checks with
  | nil => rfl
  | cons check rest ih =>
    have hcheck : allHold scope [check.code denotes] = allHold scope (check.tests denotes) := by
      rw [← truthy_conjunction, ← truthy_conjunction (check.tests denotes)]
      rfl
    rw [List.map_cons, List.flatMap_cons, ← List.singleton_append, allHold_append, hcheck, ih,
      ← allHold_append]

/-! ## The tests of a pattern -/

/-- The tests that some demands make, in their order. -/
def Demand.tests (denotes : σ → Expression) (demands : List (Demand σ)) : List Expression :=
  (demands.filterMap Demand.check?).flatMap (Check.tests denotes)

@[simp] theorem Demand.tests_nil : Demand.tests denotes ([] : List (Demand σ)) = [] := rfl

@[simp] theorem Demand.tests_check (check : Check σ) (demands : List (Demand σ)) :
    Demand.tests denotes (.check check :: demands) =
      check.tests denotes ++ Demand.tests denotes demands := by
  simp [tests, check?]

@[simp] theorem Demand.tests_bind (binding : Binding σ) (demands : List (Demand σ)) :
    Demand.tests denotes (.bind binding :: demands) = Demand.tests denotes demands := by
  simp [tests, check?, List.filterMap_cons]

@[simp] theorem Demand.tests_append (first second : List (Demand σ)) :
    Demand.tests denotes (first ++ second) =
      Demand.tests denotes first ++ Demand.tests denotes second := by
  simp [tests]

theorem identical?_ofLiteral (v : Value) (literal : Literal) :
    ∃ b, v.identical? (.ofLiteral literal) = some b ∧ (b = true ↔ v = .ofLiteral literal) := by
  cases literal <;> cases v <;> simp [Value.identical?, Value.ofLiteral]

theorem identical?_natCast (m n : Nat) :
    (Value.int m).identical? (.int n) = some (decide (m = n)) :=
  congrArg some (decide_eq_decide.mpr Int.ofNat_inj)

theorem atLeast?_natCast (m n : Nat) :
    (Value.int m).atLeast? (.int n) = some (decide (n ≤ m)) :=
  congrArg some (decide_eq_decide.mpr Int.ofNat_le)

/-- The check of a length holds for lists of that length, and throws for no value. -/
theorem allHold_length (hArray : scope "Array" = some .arrayClass) {ref : Ref σ} {v : Value}
    (hv : (ref.code denotes).eval scope = some v) (count : Nat) (atLeast : Bool) :
    ∃ b, allHold scope ((Check.length ref count atLeast).tests denotes) = some b ∧
      (b = true ↔ ∃ values, v = .array values ∧
        if atLeast then count ≤ values.length else values.length = count) := by
  cases v with
  | array values =>
    cases atLeast with
    | false =>
      refine ⟨decide (values.length = count), ?_, by simp⟩
      by_cases h : values.length = count <;>
        simp [Check.tests, allHold, Expression.eval, Expression.evalAll, hv, hArray, operate,
          Value.invoke?, Value.isArray, Value.property?, identical?_natCast, Value.ofLiteral,
          Value.truthy, h]
    | true =>
      refine ⟨decide (count ≤ values.length), ?_, by simp⟩
      by_cases h : count ≤ values.length <;>
        simp [Check.tests, allHold, Expression.eval, Expression.evalAll, hv, hArray, operate,
          Value.invoke?, Value.isArray, Value.property?, atLeast?_natCast, Value.ofLiteral,
          Value.truthy, h]
  | _ =>
    refine ⟨false, ?_, by simp⟩
    simp [Check.tests, allHold, Expression.eval, Expression.evalAll, hv, hArray, Value.invoke?,
      Value.isArray, Value.truthy]

theorem eval_item {ref : Ref σ} {values : List Value}
    (hv : (ref.code denotes).eval scope = some (.array values)) {index : Nat}
    (h : index < values.length) :
    ((Ref.item ref index).code denotes).eval scope = some values[index] := by
  simp [Ref.code, Expression.eval, hv, Value.item?, h]

mutual

/-- The tests of a pattern decide whether the value at a reference matches. -/
theorem allHold_demands (hArray : scope "Array" = some .arrayClass) {ref : Ref σ} {v : Value}
    (hv : (ref.code denotes).eval scope = some v) (trail : Trail) (p : Pattern) :
    ∃ b, allHold scope (Demand.tests denotes (p.demands ref trail)) = some b ∧
      (b = true ↔ p.Matches v) := by
  cases p with
  | literal value =>
    obtain ⟨b, hb, hiff⟩ := identical?_ofLiteral v value
    refine ⟨b, ?_, by simpa [Pattern.Matches] using hiff⟩
    cases b <;>
      simp [Pattern.demands, Check.tests, allHold, Expression.eval, operate, hv, hb, Value.truthy]
  | var name => exact ⟨true, by simp [Pattern.demands], by simp [Pattern.Matches]⟩
  | wildcard => exact ⟨true, by simp [Pattern.demands], by simp [Pattern.Matches]⟩
  | list items =>
    obtain ⟨b, hb, hlength⟩ := allHold_length hArray hv items.length false
    simp only [Pattern.demands, Demand.tests_check, allHold_append, hb, Option.bind_some]
    cases b with
    | false =>
      refine ⟨false, rfl, by simp, fun h => ?_⟩
      cases v with
      | array values => exact hlength.mpr ⟨values, rfl, h.1⟩
      | _ => simp [Pattern.Matches] at h
    | true =>
      obtain ⟨values, rfl, hcount⟩ := hlength.mp rfl
      have hcount : values.length = items.length := hcount
      simpa [Pattern.Matches, hcount] using
        allHold_itemDemands hArray hv (trail.field "items") 0 items (by omega)
  | listTail items tail =>
    obtain ⟨b, hb, hlength⟩ := allHold_length hArray hv items.length true
    simp only [Pattern.demands, Demand.tests_check, Demand.tests_append, Demand.tests_bind,
      Demand.tests_nil, List.append_nil, allHold_append, hb, Option.bind_some]
    cases b with
    | false =>
      refine ⟨false, rfl, by simp, fun h => ?_⟩
      cases v with
      | array values => exact hlength.mpr ⟨values, rfl, h.1⟩
      | _ => simp [Pattern.Matches] at h
    | true =>
      obtain ⟨values, rfl, hcount⟩ := hlength.mp rfl
      have hcount : items.length ≤ values.length := hcount
      simpa [Pattern.Matches, hcount] using
        allHold_itemDemands hArray hv (trail.field "items") 0 items (by omega)

/-- The items from `index` on are tested against the values from there on, all of which exist. -/
theorem allHold_itemDemands (hArray : scope "Array" = some .arrayClass) {ref : Ref σ}
    {values : List Value} (hv : (ref.code denotes).eval scope = some (.array values))
    (trail : Trail) (index : Nat) (items : List Pattern)
    (hlength : index + items.length ≤ values.length) :
    ∃ b, allHold scope (Demand.tests denotes (Pattern.itemDemands ref trail index items)) = some b ∧
      (b = true ↔ Pattern.MatchesItems items (values.drop index)) := by
  cases items with
  | nil => exact ⟨true, by simp [Pattern.itemDemands], by simp [Pattern.MatchesItems]⟩
  | cons p rest =>
    have hindex : index < values.length := by simp only [List.length_cons] at hlength; omega
    obtain ⟨b, hb, hp⟩ := allHold_demands hArray (eval_item hv hindex) (trail.item index) p
    obtain ⟨c, hc, hrest⟩ := allHold_itemDemands hArray hv trail (index + 1) rest
      (by simp only [List.length_cons] at hlength; omega)
    refine ⟨b && c, ?_, ?_⟩
    · rw [Pattern.itemDemands, Demand.tests_append, allHold_append, hb, hc]
      cases b <;> rfl
    · rw [List.drop_eq_getElem_cons hindex, Pattern.MatchesItems, Bool.and_eq_true, hp, hrest]

end

/-! ## The bindings of a pattern -/

/-- The names that some demands bind, with the values of their references. -/
def Demand.values (scope : Scope) (denotes : σ → Expression) (demands : List (Demand σ)) :
    List (Text × Option Value) :=
  Lowering.entries (fun binding => (binding.ref.code denotes).eval scope)
    (demands.filterMap Demand.binding?)

@[simp] theorem Demand.values_append (first second : List (Demand σ)) :
    Demand.values scope denotes (first ++ second) =
      Demand.values scope denotes first ++ Demand.values scope denotes second := by
  simp [values, Lowering.entries]

mutual

/-- In a value that matches, every demanded binding refers to the part it is to stand for. -/
theorem values_demands {ref : Ref σ} {v : Value}
    (hv : (ref.code denotes).eval scope = some v) (trail : Trail) {p : Pattern}
    (h : p.Matches v) :
    Demand.values scope denotes (p.demands ref trail) = (p.parts v).map (Prod.map id some) := by
  cases p with
  | literal value =>
    simp [Pattern.demands, Pattern.parts, Demand.values, Demand.binding?, Lowering.entries]
  | var name =>
    simp [Pattern.demands, Pattern.parts, Demand.values, Demand.binding?, Lowering.entries, hv]
  | wildcard => simp [Pattern.demands, Pattern.parts, Demand.values, Lowering.entries]
  | list items =>
    cases v with
    | array values =>
      have hcount : values.length = items.length := h.1
      exact values_itemDemands hv (trail.field "items") 0 (by omega) h.2
    | _ => simp [Pattern.Matches] at h
  | listTail items tail =>
    cases v with
    | array values =>
      have hcount : items.length ≤ values.length := h.1
      have hitems := values_itemDemands hv (trail.field "items") 0 (by omega) h.2
      have htail : ((Ref.rest ref items.length).code denotes).eval scope =
          some (.array (values.drop items.length)) := by
        simp [Ref.code, Expression.eval, Expression.evalAll, hv, Value.invoke?, Value.ofLiteral]
      rw [List.drop_zero] at hitems
      rw [Pattern.parts, List.map_append, ← hitems]
      simp [Pattern.demands, Demand.values, Demand.binding?, Lowering.entries, List.filterMap_cons,
        htail]
    | _ => simp [Pattern.Matches] at h

theorem values_itemDemands {ref : Ref σ} {values : List Value}
    (hv : (ref.code denotes).eval scope = some (.array values)) (trail : Trail) (index : Nat)
    {items : List Pattern} (hlength : index + items.length ≤ values.length)
    (h : Pattern.MatchesItems items (values.drop index)) :
    Demand.values scope denotes (Pattern.itemDemands ref trail index items) =
      (Pattern.itemParts items (values.drop index)).map (Prod.map id some) := by
  cases items with
  | nil => simp [Pattern.itemDemands, Pattern.itemParts, Demand.values, Lowering.entries]
  | cons p rest =>
    have hindex : index < values.length := by simp only [List.length_cons] at hlength; omega
    rw [List.drop_eq_getElem_cons hindex] at h ⊢
    rw [Pattern.itemDemands, Pattern.itemParts, Demand.values_append, List.map_append,
      values_demands (eval_item hv hindex) (trail.item index) h.1,
      values_itemDemands hv trail (index + 1)
        (by simp only [List.length_cons] at hlength; omega) h.2]

end

mutual

/-- The demanded bindings bear the names of the pattern, in order. -/
theorem names_demands (ref : Ref σ) (trail : Trail) (p : Pattern) :
    ((p.demands ref trail).filterMap Demand.binding?).map (·.name) = p.names := by
  cases p with
  | literal value => rfl
  | var name => rfl
  | wildcard => rfl
  | list items => exact names_itemDemands ref (trail.field "items") 0 items
  | listTail items tail =>
    simp [Pattern.demands, Pattern.names, Demand.binding?, List.filterMap_cons,
      ← names_itemDemands ref (trail.field "items") 0 items]

theorem names_itemDemands (ref : Ref σ) (trail : Trail) (index : Nat) (items : List Pattern) :
    ((Pattern.itemDemands ref trail index items).filterMap Demand.binding?).map (·.name) =
      Pattern.itemNames items := by
  cases items with
  | nil => rfl
  | cons p rest =>
    rw [Pattern.itemDemands, Pattern.itemNames, List.filterMap_append, List.map_append,
      names_demands (.item ref index) (trail.item index) p,
      names_itemDemands ref trail (index + 1) rest]

end

/-! ## Lowered patterns -/

section Lowered

variable {shadowing : Bool} {trail : Trail} {subject : σ} {p : Pattern} {lowering : Lowering σ}

theorem mem_names_lower (h : p.lower shadowing trail subject = .ok lowering) {name : Text} :
    name ∈ lowering.bindings.map (·.name) ↔ name ∈ p.names := by
  have hentries := (p.of_lower h fun binding => binding.ref).2.1
  rw [← Lowering.keys_entries fun binding : Binding σ => binding.ref, hentries,
    Assoc.mem_keys_insertAll, Lowering.keys_entries, names_demands]
  simp

theorem isValid_of_mem_lower (h : p.lower shadowing trail subject = .ok lowering)
    {binding : Binding σ} (hb : binding ∈ lowering.bindings) :
    Name.isValid binding.name = true := by
  have hmem : binding.name ∈ p.names :=
    (mem_names_lower h).mp (List.mem_map_of_mem hb)
  rw [← names_demands (.subject subject) trail p] at hmem
  obtain ⟨demanded, hd, hname⟩ := List.mem_map.mp hmem
  exact hname ▸ (p.of_lower h fun binding => binding.ref).2.2 demanded hd

/-- A lowering without checks comes from a pattern that matches by its form alone. -/
theorem isCatchAll_lower (h : p.lower shadowing trail subject = .ok lowering) :
    lowering.isCatchAll = p.catchesAll := by
  rw [Lowering.isCatchAll, (p.of_lower h fun binding => binding.ref).1]
  cases p <;> simp [Pattern.demands, Demand.check?, Pattern.catchesAll, List.filterMap_cons]

theorem allHold_lower (h : p.lower shadowing trail subject = .ok lowering)
    (hArray : scope "Array" = some .arrayClass) {v : Value}
    (hv : (denotes subject).eval scope = some v) :
    ∃ b, allHold scope (lowering.checks.flatMap (Check.tests denotes)) = some b ∧
      (b = true ↔ p.Matches v) := by
  have href : ((Ref.subject subject).code denotes).eval scope = some v := hv
  rw [(p.of_lower h fun binding => binding.ref).1]
  exact allHold_demands hArray href trail p

theorem entries_lower (h : p.lower shadowing trail subject = .ok lowering) {v : Value}
    (hv : (denotes subject).eval scope = some v) (hp : p.Matches v) :
    Lowering.entries (fun binding => (binding.ref.code denotes).eval scope) lowering.bindings =
      (p.assigned v).map (Prod.map id some) := by
  have href : ((Ref.subject subject).code denotes).eval scope = some v := hv
  have hvalues := values_demands href trail hp
  rw [Demand.values] at hvalues
  rw [(p.of_lower h _).2.1, hvalues, Pattern.assigned, Assoc.map_insertAll]
  rfl

end Lowered

/-- What a pattern is lowered to says all of what the pattern says. Tried on a value that the
subject refers to, the checks do not throw and all of them hold just if the value matches; then each
binding refers to the last part that bears its name, and just the names of the pattern are bound. No
checks are left only if every value matches. The subject may be any reference: where checks and
bindings write it as `denotes` says, they are written as the programs that are evaluated here. -/
theorem Pattern.lower_exact {shadowing : Bool} {trail : Trail} {subject : σ} {p : Pattern}
    {lowering : Lowering σ} (h : p.lower shadowing trail subject = .ok lowering)
    (denotes : σ → Expression) :
    (∀ (scope : Scope) (v : Value), scope "Array" = some .arrayClass →
      (denotes subject).eval scope = some v →
      (∃ b, allHold scope (lowering.checks.map (Check.code denotes)) = some b ∧
        (b = true ↔ p.Matches v)) ∧
      (p.Matches v → ∀ binding ∈ lowering.bindings, ∃ w,
        (binding.ref.code denotes).eval scope = some w ∧
          (p.parts v).reverse.lookup binding.name = some w)) ∧
    (lowering.bindings.map (·.name)).Nodup ∧
    (∀ name, name ∈ lowering.bindings.map (·.name) ↔ name ∈ p.names) ∧
    (lowering.isCatchAll = true ↔ ∀ v, p.Matches v) ∧
    ∀ toDoc : σ → Doc, (∀ s, (toDoc s).flatText = (denotes s).written) →
      (∀ check ∈ lowering.checks,
        (check.doc toDoc).flatText = (check.code denotes).written) ∧
      ∀ binding ∈ lowering.bindings,
        (binding.ref.doc toDoc).flatText = (binding.ref.code denotes).written := by
  refine ⟨fun scope v hArray hv => ⟨?_, fun hp binding hb => ?_⟩, p.nodup_names_of_lower h,
    fun name => mem_names_lower h, ?_, fun toDoc htext => ⟨fun check _ => check.flatText_doc htext,
      fun binding _ => binding.ref.flatText_doc htext⟩⟩
  · rw [allHold_code]
    exact allHold_lower h hArray hv
  · have hentry : (binding.name, (binding.ref.code denotes).eval scope) ∈
        (p.assigned v).map (Prod.map id some) := by
      rw [← entries_lower h hv hp]
      exact List.mem_map.mpr ⟨binding, hb, rfl⟩
    obtain ⟨⟨name, w⟩, hw, he⟩ := List.mem_map.mp hentry
    obtain ⟨rfl, hw'⟩ := Prod.mk.inj he
    refine ⟨w, hw'.symm, ?_⟩
    rw [← lookup_assigned]
    exact Assoc.lookup_of_mem (p.nodup_names_assigned v) hw
  · rw [isCatchAll_lower h]
    exact catchesAll_iff_forall_matches

/-- `[[x, 1], x, ...xs]`: a list in a list, a name that is repeated, and a tail. -/
def Pattern.repeating : Pattern :=
  .listTail [.list [.var [.scalar 'x'], .literal (.int 1)], .var [.scalar 'x']]
    [.scalar 'x', .scalar 's']

def Pattern.repeatingValue : Value :=
  .array [.array [.string [97], .int 1], .int 5, .bool true]

def Pattern.repeatingScope : Scope := fun name =>
  if name = "Array" then some .arrayClass
  else if name = "$" then some repeatingValue
  else none

theorem Pattern.lower_exact_repeating :
    ∃ lowering, repeating.lower true (.root "pattern") "$" = .ok lowering ∧
      repeatingScope "Array" = some .arrayClass ∧ repeatingScope "$" = some repeatingValue ∧
      repeating.Matches repeatingValue ∧
      (∃ b, allHold repeatingScope (lowering.checks.map (Check.code .name)) = some b ∧
        (b = true ↔ repeating.Matches repeatingValue)) ∧
      ∀ binding ∈ lowering.bindings, ∃ w,
        (binding.ref.code .name).eval repeatingScope = some w ∧
          (repeating.parts repeatingValue).reverse.lookup binding.name = some w := by
  have hmatches : repeating.Matches repeatingValue := by
    simp [repeating, repeatingValue, Matches, MatchesItems, Value.ofLiteral]
  obtain ⟨lowering, hlower⟩ :
      ∃ lowering, repeating.lower true (.root "pattern") "$" = .ok lowering := ⟨_, rfl⟩
  have hexact := (lower_exact hlower .name).1 repeatingScope repeatingValue rfl rfl
  exact ⟨lowering, hlower, rfl, rfl, hmatches, hexact.1, hexact.2 hmatches⟩

end CaseScript
