import CaseScript.Proofs.Except
import CaseScript.Proofs.Name.Identifier
import CaseScript.Script.Emitter

/-!
# Derivations of scripts

The rules by which a tree yields a script, one for each form of expression and each fate of a
clause. An emission succeeds just where the rules yield a script, and with that script. The rules
take the name under which a match holds its subject as a parameter, which may differ from match to
match; emissions use one name for all of them.
-/

namespace CaseScript
namespace Script

namespace Emission

variable {α β : Type}

theorem result_bind_eq_ok {x : Emission α} {f : α → Emission β} {b : β} :
    (x >>= f).result = .ok b ↔ ∃ a, x.result = .ok a ∧ (f a).result = .ok b := by
  obtain ⟨decisions, result⟩ := x
  cases result with
  | error fault => simp
  | ok a => simp

theorem result_pure_eq_ok {a b : α} : (pure a : Emission α).result = .ok b ↔ a = b := by
  simp

theorem result_ofExcept (result : Except NamingFault α) : (ofExcept result).result = result := rfl

theorem result_decide (decision : Decision) : (decide decision).result = .ok () := rfl

end Emission

theorem operatorAt_eq_ok {trail : Trail} {op : Text} {operator : String} :
    op.operatorAt trail = .ok operator ↔ op.isOperator = true ∧ op.shown = operator := by
  rw [Text.operatorAt]
  split <;> simp_all

/-- Parameters are accepted if they are valid names, each unlike those before it. -/
theorem parameters_eq_ok {trail : Trail} {before params : List Text} {identifiers : List String} :
    parameters trail before params = .ok identifiers ↔
      (∀ param ∈ params, Name.isValid param = true ∧ param ∉ before) ∧ params.Nodup ∧
        params.map Name.identifier = identifiers := by
  induction params generalizing before identifiers with
  | nil => simp [parameters]
  | cons param rest ih =>
    rw [parameters]
    cases hi : before.idxOf? param with
    | some first =>
      have hmem : param ∈ before := by
        rw [← List.isSome_idxOf?, hi]
        rfl
      simp [hmem]
    | none =>
      have hmem : param ∉ before := List.idxOf?_eq_none_iff.mp hi
      simp only [except_bind_eq_ok, Name.identifierAt_eq_ok, ih, List.mem_cons, List.nodup_cons,
        List.mem_append, List.map_cons]
      constructor
      · rintro ⟨_, ⟨hvalid, rfl⟩, _, ⟨hrest, hdistinct, rfl⟩, h⟩
        refine ⟨?_, ⟨fun hparam => (hrest param hparam).2 (by simp), hdistinct⟩, Except.ok.inj h⟩
        rintro other (rfl | hother)
        · exact ⟨hvalid, hmem⟩
        · exact ⟨(hrest other hother).1, fun hb => (hrest other hother).2 (.inl hb)⟩
      · rintro ⟨hall, ⟨hnew, hdistinct⟩, rfl⟩
        refine ⟨_, ⟨(hall param (.inl rfl)).1, rfl⟩, _,
          ⟨fun other hother => ?_, hdistinct, rfl⟩, rfl⟩
        refine ⟨(hall other (.inr hother)).1, ?_⟩
        rintro (hb | he)
        · exact (hall other (.inr hother)).2 hb
        · exact hnew ((he.resolve_right List.not_mem_nil) ▸ hother)

variable (subjects : Trail → String) (shadowing : Bool)

mutual

/-- The scripts of expressions at a trail, where the match at `trail` holds its subject under the
name `subjects trail`. -/
inductive Yields : Trail → Expr → Term → Prop
  | literal (trail : Trail) (value : Literal) : Yields trail (.literal value) (.literal value)
  | var (trail : Trail) {name : Text} (valid : Name.isValid name = true) :
    Yields trail (.var name) (.name (Name.identifier name))
  | list {trail : Trail} {items : List Expr} {terms : List Term}
    (items_yield : YieldsItems (trail.field "items") 0 items terms) :
    Yields trail (.list items) (.array terms)
  | binop {trail : Trail} {op : Text} {left right : Expr} {leftTerm rightTerm : Term}
    (left_yields : Yields (trail.field "left") left leftTerm) (valid : op.isOperator = true)
    (right_yields : Yields (trail.field "right") right rightTerm) :
    Yields trail (.binop op left right) (.operation op.shown leftTerm rightTerm)
  | letIn {trail : Trail} {name : Text} {value body : Expr} {valueTerm bodyTerm : Term}
    (valid : Name.isValid name = true)
    (value_yields : Yields (trail.field "value") value valueTerm)
    (body_yields : Yields (trail.field "body") body bodyTerm) :
    Yields trail (.letIn name value body)
      (.block [.declare (Name.identifier name) valueTerm, .give bodyTerm])
  | apply {trail : Trail} {function : Expr} {args : List Expr} {functionTerm : Term}
    {argTerms : List Term}
    (function_yields : Yields (trail.field "function") function functionTerm)
    (args_yield : YieldsItems (trail.field "args") 0 args argTerms) :
    Yields trail (.apply function args) (.call functionTerm argTerms)
  | lambda {trail : Trail} {params : List Text} {body : Expr} {bodyTerm : Term}
    (valid : ∀ param ∈ params, Name.isValid param = true) (distinct : params.Nodup)
    (body_yields : Yields (trail.field "body") body bodyTerm) :
    Yields trail (.lambda params body) (.arrow (params.map Name.identifier) bodyTerm)
  | cases {trail : Trail} {subject : Expr} {clauses : List Clause} {subjectTerm : Term}
    {stmts : List Stmt} (subject_yields : Yields (trail.field "subject") subject subjectTerm)
    (clauses_yield : YieldsClauses trail 0 clauses stmts) :
    Yields trail (.cases subject clauses) (.block (.declare (subjects trail) subjectTerm :: stmts))

inductive YieldsItems : Trail → Nat → List Expr → List Term → Prop
  | nil (trail : Trail) (index : Nat) : YieldsItems trail index [] []
  | cons {trail : Trail} {index : Nat} {item : Expr} {rest : List Expr} {term : Term}
    {terms : List Term} (item_yields : Yields (trail.item index) item term)
    (rest_yields : YieldsItems trail (index + 1) rest terms) :
    YieldsItems trail index (item :: rest) (term :: terms)

/-- The statements for the clauses from an index on. The first clause without checks is the last one
that has a part in them. -/
inductive YieldsClauses : Trail → Nat → List Clause → List Stmt → Prop
  | failing (trail : Trail) (index : Nat) : YieldsClauses trail index [] [.fail]
  | catchAll {trail : Trail} {index : Nat} {pattern : Pattern} {body : Expr} {bodyTerm : Term}
    {lowering : Lowering String} (rest : List Clause)
    (lowered : pattern.lower shadowing ((Decision.clause trail index).field "pattern")
      (subjects trail) = .ok lowering)
    (total : lowering.isCatchAll = true)
    (body_yields : Yields ((Decision.clause trail index).field "body") body bodyTerm) :
    YieldsClauses trail index (⟨pattern, body⟩ :: rest) (declarations lowering ++ [.give bodyTerm])
  | guarded {trail : Trail} {index : Nat} {pattern : Pattern} {body : Expr} {bodyTerm : Term}
    {lowering : Lowering String} {rest : List Clause} {stmts : List Stmt}
    (lowered : pattern.lower shadowing ((Decision.clause trail index).field "pattern")
      (subjects trail) = .ok lowering)
    (partial_checks : lowering.isCatchAll = false)
    (body_yields : Yields ((Decision.clause trail index).field "body") body bodyTerm)
    (rest_yields : YieldsClauses trail (index + 1) rest stmts) :
    YieldsClauses trail index (⟨pattern, body⟩ :: rest)
      (.guarded lowering.checks (declarations lowering ++ [.give bodyTerm]) :: stmts)

end

variable {shadowing : Bool}

/-- The name under which an emission holds every subject. -/
abbrev oneSubject : Trail → String := fun _ => Name.subject

mutual

theorem yields_iff {trail : Trail} {e : Expr} {term : Term} :
    Yields oneSubject shadowing trail e term ↔ (ofExpr shadowing trail e).result = .ok term := by
  cases e with
  | literal value =>
    rw [ofExpr, Emission.result_pure_eq_ok]
    exact ⟨fun h => by cases h; rfl, fun h => h ▸ .literal trail value⟩
  | var name =>
    simp only [ofExpr, Emission.result_bind_eq_ok, Emission.result_ofExcept,
      Name.identifierAt_eq_ok, Emission.result_pure_eq_ok]
    constructor
    · rintro (_ | h)
      exact ⟨_, ⟨‹_›, rfl⟩, rfl⟩
    · rintro ⟨_, ⟨h, rfl⟩, rfl⟩
      exact .var trail h
  | list items =>
    simp only [ofExpr, Emission.result_bind_eq_ok, ← yieldsItems_iff, Emission.result_pure_eq_ok]
    constructor
    · rintro ⟨h⟩
      exact ⟨_, ‹_›, rfl⟩
    · rintro ⟨_, h, rfl⟩
      exact .list h
  | binop op left right =>
    simp only [ofExpr, Emission.result_bind_eq_ok, ← yields_iff, Emission.result_ofExcept,
      operatorAt_eq_ok, Emission.result_pure_eq_ok]
    constructor
    · intro h
      cases h with
      | binop hleft valid hright => exact ⟨_, hleft, _, ⟨valid, rfl⟩, _, hright, rfl⟩
    · rintro ⟨_, hleft, _, ⟨valid, rfl⟩, _, hright, rfl⟩
      exact .binop hleft valid hright
  | letIn name value body =>
    simp only [ofExpr, Emission.result_bind_eq_ok, ← yields_iff, Emission.result_ofExcept,
      Name.identifierAt_eq_ok, Emission.result_pure_eq_ok]
    constructor
    · intro h
      cases h with
      | letIn valid hvalue hbody => exact ⟨_, ⟨valid, rfl⟩, _, hvalue, _, hbody, rfl⟩
    · rintro ⟨_, ⟨valid, rfl⟩, _, hvalue, _, hbody, rfl⟩
      exact .letIn valid hvalue hbody
  | apply function args =>
    simp only [ofExpr, Emission.result_bind_eq_ok, ← yields_iff, ← yieldsItems_iff,
      Emission.result_pure_eq_ok]
    constructor
    · intro h
      cases h with
      | apply hfunction hargs => exact ⟨_, hfunction, _, hargs, rfl⟩
    · rintro ⟨_, hfunction, _, hargs, rfl⟩
      exact .apply hfunction hargs
  | lambda params body =>
    simp only [ofExpr, Emission.result_bind_eq_ok, ← yields_iff, Emission.result_ofExcept,
      parameters_eq_ok, Emission.result_pure_eq_ok]
    constructor
    · intro h
      cases h with
      | lambda valid distinct hbody =>
        exact ⟨_, ⟨fun param hp => ⟨valid param hp, by simp⟩, distinct, rfl⟩, _, hbody, rfl⟩
    · rintro ⟨_, ⟨valid, distinct, rfl⟩, _, hbody, rfl⟩
      exact .lambda (fun param hp => (valid param hp).1) distinct hbody
  | cases subject clauses =>
    simp only [ofExpr, Emission.result_bind_eq_ok, ← yields_iff, ← yieldsClauses_iff,
      Emission.result_pure_eq_ok]
    constructor
    · intro h
      cases h with
      | cases hsubject hclauses => exact ⟨_, hsubject, _, hclauses, rfl⟩
    · rintro ⟨_, hsubject, _, hclauses, rfl⟩
      exact .cases hsubject hclauses

theorem yieldsItems_iff {trail : Trail} {index : Nat} {items : List Expr} {terms : List Term} :
    YieldsItems oneSubject shadowing trail index items terms ↔
      (ofItems shadowing trail index items).result = .ok terms := by
  cases items with
  | nil =>
    rw [ofItems, Emission.result_pure_eq_ok]
    exact ⟨fun h => by cases h; rfl, fun h => h ▸ .nil trail index⟩
  | cons item rest =>
    simp only [ofItems, Emission.result_bind_eq_ok, ← yields_iff, ← yieldsItems_iff,
      Emission.result_pure_eq_ok]
    constructor
    · intro h
      cases h with
      | cons hitem hrest => exact ⟨_, hitem, _, hrest, rfl⟩
    · rintro ⟨_, hitem, _, hrest, rfl⟩
      exact .cons hitem hrest

theorem yieldsClauses_iff {trail : Trail} {index : Nat} {clauses : List Clause}
    {stmts : List Stmt} :
    YieldsClauses oneSubject shadowing trail index clauses stmts ↔
      (ofClauses shadowing trail index clauses).result = .ok stmts := by
  cases clauses with
  | nil =>
    simp only [ofClauses, Emission.result_bind_eq_ok, Emission.result_decide,
      Emission.result_pure_eq_ok]
    constructor
    · intro h
      cases h
      exact ⟨(), trivial, rfl⟩
    · rintro ⟨_, _, rfl⟩
      exact .failing trail index
  | cons clause rest =>
    obtain ⟨pattern, body⟩ := clause
    simp only [ofClauses, Emission.result_bind_eq_ok, Emission.result_ofExcept, ← yields_iff]
    constructor
    · intro h
      cases h with
      | catchAll _ lowered total hbody =>
        refine ⟨_, lowered, _, hbody, ?_⟩
        simp only [total, if_true, Emission.result_bind_eq_ok, Emission.result_decide,
          Emission.result_pure_eq_ok]
        exact ⟨(), trivial, trivial⟩
      | guarded lowered hpartial hbody hrest =>
        refine ⟨_, lowered, _, hbody, ?_⟩
        simp only [hpartial, Bool.false_eq_true, if_false, Emission.result_bind_eq_ok,
          Emission.result_decide, Emission.result_pure_eq_ok]
        exact ⟨(), trivial, _, yieldsClauses_iff.mp hrest, rfl⟩
    · rintro ⟨lowering, lowered, bodyTerm, hbody, h⟩
      split at h
      · rename_i total
        simp only [Emission.result_bind_eq_ok, Emission.result_pure_eq_ok] at h
        obtain ⟨_, _, rfl⟩ := h
        exact .catchAll rest lowered total hbody
      · rename_i hpartial
        simp only [Emission.result_bind_eq_ok, ← yieldsClauses_iff,
          Emission.result_pure_eq_ok] at h
        obtain ⟨_, _, _, hrest, rfl⟩ := h
        exact .guarded lowered (by simpa using hpartial) hbody hrest

end

end Script
end CaseScript
