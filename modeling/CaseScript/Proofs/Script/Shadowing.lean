import CaseScript.Proofs.Script.FaultPlaces
import CaseScript.Proofs.Script.Reports

/-!
# Bindings that shadow each other

A pattern that binds a name twice is refused unless bindings may shadow each other. Nothing else
depends on that: wherever no pattern is refused for it, a tree has the same emission either way. Two
emissions of the tree are compared side by side, which take the same decisions up to the place where
the first of them comes to a name that is bound already.
-/

namespace CaseScript

/-- Does a fault say that a pattern binds a name twice? -/
def NamingFault.IsDouble (fault : NamingFault) : Prop := fault.diagnostic.code = "E201"

namespace Script

open Emission

variable {α β : Type}

/-- Are two emissions the same, unless the first ends with a name that is bound twice? The second
never does. -/
structure Emission.ExtendedBy (strict lax : Emission α) : Prop where
  eq_of_single : (∀ fault, strict.result = .error fault → ¬ fault.IsDouble) → lax = strict
  single : ∀ fault, lax.result = .error fault → ¬ fault.IsDouble

namespace Emission

variable {x strict lax : Emission α}

theorem extendedBy_self (h : ∀ fault, x.result = .error fault → ¬ fault.IsDouble) :
    x.ExtendedBy x := ⟨fun _ => rfl, h⟩

theorem extendedBy_pure (a : α) : (pure a : Emission α).ExtendedBy (pure a) :=
  extendedBy_self nofun

theorem extendedBy_decide (decision : Decision) : (decide decision).ExtendedBy (decide decision) :=
  extendedBy_self nofun

/-- A first step that ends in a fault is the same in both, or else the fault is that of a name bound
twice and nothing is claimed of the second emission but how it may fail. -/
theorem ExtendedBy.bind (h : strict.ExtendedBy lax) {f g : α → Emission β}
    (hnext : ∀ a, (f a).ExtendedBy (g a)) : (strict >>= f).ExtendedBy (lax >>= g) := by
  obtain ⟨decisions, result⟩ := strict
  constructor
  · intro hsingle
    cases result with
    | error fault =>
      have hfault : ¬ fault.IsDouble := hsingle fault rfl
      have hlax := h.eq_of_single fun other hother => Except.error.inj hother ▸ hfault
      rw [hlax, error_bind, error_bind]
    | ok a =>
      have hlax := h.eq_of_single nofun
      rw [hlax, ok_bind, ok_bind, (hnext a).eq_of_single hsingle]
  · intro fault hfault
    obtain ⟨decisions', result'⟩ := lax
    cases result' with
    | error other =>
      rw [error_bind] at hfault
      exact Except.error.inj hfault ▸ h.single other rfl
    | ok a => exact (hnext a).single fault hfault

theorem ExtendedBy.map (h : strict.ExtendedBy lax) (f : α → β) :
    (strict >>= fun a => pure (f a)).ExtendedBy (lax >>= fun a => pure (f a)) :=
  h.bind fun a => extendedBy_pure (f a)

/-! ## Names and operators -/

theorem not_isDouble_invalidName (name : Text) (trail : Trail) :
    ¬ (NamingFault.invalidName name trail).IsDouble := by
  change ("E202" : String) ≠ "E201"
  decide

theorem extendedBy_identifierAt (trail : Trail) (name : Text) :
    (ofExcept (Name.identifierAt trail name)).ExtendedBy
      (ofExcept (Name.identifierAt trail name)) := by
  apply extendedBy_self
  intro fault hfault
  obtain ⟨-, rfl⟩ := Name.identifierAt_eq_error hfault
  exact not_isDouble_invalidName name trail

theorem extendedBy_operatorAt (trail : Trail) (op : Text) :
    (ofExcept (op.operatorAt trail)).ExtendedBy (ofExcept (op.operatorAt trail)) := by
  apply extendedBy_self
  intro fault hfault
  change op.operatorAt trail = .error fault at hfault
  unfold Text.operatorAt at hfault
  split at hfault
  · cases hfault
  · cases hfault
    change ("E204" : String) ≠ "E201"
    decide

theorem extendedBy_parameters (trail : Trail) (before params : List Text) :
    (ofExcept (parameters trail before params)).ExtendedBy
      (ofExcept (parameters trail before params)) := by
  apply extendedBy_self
  intro fault hfault
  obtain ⟨name, k, -, ⟨-, rfl⟩ | ⟨i, -, -, rfl⟩⟩ := parameters_eq_error hfault
  · exact not_isDouble_invalidName name _
  · change ("E203" : String) ≠ "E201"
    decide

/-! ## Patterns -/

section Patterns

variable {σ : Type}

/-- Only a name that is bound already makes a difference. -/
theorem extendedBy_meet (lowering : Lowering σ) (demand : Demand σ) :
    (ofExcept (lowering.meet false demand)).ExtendedBy (ofExcept (lowering.meet true demand)) := by
  cases demand with
  | check check => exact extendedBy_pure _
  | bind binding =>
    change (ofExcept (lowering.bind false binding)).ExtendedBy
      (ofExcept (lowering.bind true binding))
    unfold Lowering.bind
    by_cases hvalid : Name.isValid binding.name = true
    · rw [if_pos hvalid, if_pos hvalid]
      cases hbound : lowering.binding? binding.name with
      | none => exact extendedBy_pure _
      | some first =>
        constructor
        · intro hsingle
          exact absurd rfl (hsingle _ rfl)
        · nofun
    · rw [if_neg hvalid, if_neg hvalid]
      apply extendedBy_self
      intro fault hfault
      cases hfault
      exact not_isDouble_invalidName _ _

theorem extendedBy_meets (lowering : Lowering σ) (demands : List (Demand σ)) :
    (ofExcept (demands.foldlM (Lowering.meet false) lowering)).ExtendedBy
      (ofExcept (demands.foldlM (Lowering.meet true) lowering)) := by
  induction demands generalizing lowering with
  | nil => exact extendedBy_pure lowering
  | cons demand rest ih =>
    rw [List.foldlM_cons, List.foldlM_cons, ofExcept_bind, ofExcept_bind]
    exact (extendedBy_meet lowering demand).bind ih

theorem extendedBy_lower (trail : Trail) (subject : σ) (p : Pattern) :
    (ofExcept (p.lower false trail subject)).ExtendedBy
      (ofExcept (p.lower true trail subject)) := by
  rw [Pattern.lower_eq_foldlM, Pattern.lower_eq_foldlM]
  exact extendedBy_meets {} _

end Patterns

end Emission

/-! ## Whole trees -/

mutual

theorem extendedBy_ofExpr (trail : Trail) (e : Expr) :
    (ofExpr false trail e).ExtendedBy (ofExpr true trail e) := by
  cases e with
  | literal value => exact extendedBy_pure _
  | var name =>
    rw [ofExpr, ofExpr]
    exact (extendedBy_identifierAt trail name).map _
  | list items =>
    rw [ofExpr, ofExpr]
    exact (extendedBy_ofItems _ 0 items).map _
  | binop op left right =>
    rw [ofExpr, ofExpr]
    apply (extendedBy_ofExpr _ left).bind
    intro left
    apply (extendedBy_operatorAt _ op).bind
    intro op
    exact (extendedBy_ofExpr _ right).map _
  | letIn name value body =>
    rw [ofExpr, ofExpr]
    apply (extendedBy_identifierAt _ name).bind
    intro identifier
    apply (extendedBy_ofExpr _ value).bind
    intro value
    exact (extendedBy_ofExpr _ body).map _
  | apply function args =>
    rw [ofExpr, ofExpr]
    apply (extendedBy_ofExpr _ function).bind
    intro function
    exact (extendedBy_ofItems _ 0 args).map _
  | lambda params body =>
    rw [ofExpr, ofExpr]
    apply (extendedBy_parameters trail [] params).bind
    intro params
    exact (extendedBy_ofExpr _ body).map _
  | cases subject clauses =>
    rw [ofExpr, ofExpr]
    apply (extendedBy_ofExpr _ subject).bind
    intro subject
    exact (extendedBy_ofClauses trail 0 clauses).map _

theorem extendedBy_ofItems (trail : Trail) (index : Nat) (items : List Expr) :
    (ofItems false trail index items).ExtendedBy (ofItems true trail index items) := by
  cases items with
  | nil =>
    rw [ofItems, ofItems]
    exact extendedBy_pure []
  | cons item rest =>
    rw [ofItems, ofItems]
    apply (extendedBy_ofExpr _ item).bind
    intro item
    exact (extendedBy_ofItems trail (index + 1) rest).map _

theorem extendedBy_ofClauses (trail : Trail) (index : Nat) (clauses : List Clause) :
    (ofClauses false trail index clauses).ExtendedBy (ofClauses true trail index clauses) := by
  cases clauses with
  | nil =>
    rw [ofClauses, ofClauses]
    exact (extendedBy_decide _).map _
  | cons clause rest =>
    obtain ⟨pattern, body⟩ := clause
    rw [ofClauses, ofClauses]
    apply (extendedBy_lower _ Name.subject pattern).bind
    intro lowering
    apply (extendedBy_ofExpr _ body).bind
    intro body
    split
    · exact (extendedBy_decide _).map _
    · apply (extendedBy_decide _).bind
      intro _
      exact (extendedBy_ofClauses trail (index + 1) rest).map _

end

end Script

namespace Emitter

/-- To allow bindings that shadow each other is a conservative extension. Where no pattern is
refused for a name that it binds twice, the text or the fault is the same and so are the warnings,
whatever the emitters were used for before; and where shadowing is allowed no pattern is refused for
it. -/
theorem shadowing_conservative (e : Expr) (width : Int) (old old' : List Diagnostic) :
    let strict := emit ⟨⟨width, false⟩, old⟩ e
    let lax := emit ⟨⟨width, true⟩, old'⟩ e
    ((∀ fault, strict.1 = .error fault → fault.diagnostic.code ≠ "E201") →
      lax.1 = strict.1 ∧ lax.2.warnings = strict.2.warnings) ∧
      ∀ fault, lax.1 = .error fault → fault.diagnostic.code ≠ "E201" := by
  intro strict lax
  have hextended : (e.emission ⟨width, false⟩).ExtendedBy (e.emission ⟨width, true⟩) :=
    Script.extendedBy_ofExpr (.root "expr") e
  have hfails : ∀ settings fault, e.script settings = .error fault ↔
      (e.emission settings).result = .error fault := by
    intro settings fault
    rw [Expr.script]
    cases (e.emission settings).result <;> simp [Except.map]
  constructor
  · intro hsingle
    have heq := hextended.eq_of_single fun fault hfault =>
      hsingle fault ((hfails ⟨width, false⟩ fault).mpr hfault)
    constructor
    · change (e.emission ⟨width, true⟩).result.map _ = (e.emission ⟨width, false⟩).result.map _
      rw [heq]
    · change (e.emission ⟨width, true⟩).warnings = (e.emission ⟨width, false⟩).warnings
      rw [heq]
  · intro fault hfault
    exact hextended.single fault ((hfails ⟨width, true⟩ fault).mp hfault)

/-- `case v of [first, second] -> first` -/
def pairOf (first second : String) : Expr :=
  .cases (.var (Text.ofString "v"))
    [⟨.list [.var (Text.ofString first), .var (Text.ofString second)],
      .var (Text.ofString first)⟩]

/-- A pair with two names has the same script either way, and one with an invalid name the same
fault. A pair that binds one name twice is refused only where shadowing is not allowed. -/
theorem shadowing_conservative_pairOf :
    let strict : Emitter := ⟨⟨20, false⟩, []⟩
    let lax : Emitter := ⟨⟨20, true⟩, [Script.Decision.unreachable (.root "expr") 0 1]⟩
    (lax.emit (pairOf "x" "y")).1 = (strict.emit (pairOf "x" "y")).1 ∧
      (lax.emit (pairOf "x" "1")).1 = (strict.emit (pairOf "x" "1")).1 ∧
      (∃ fault, (strict.emit (pairOf "x" "1")).1 = .error fault ∧
        fault.diagnostic.code = "E202") ∧
      (∃ fault, (strict.emit (pairOf "x" "x")).1 = .error fault ∧
        fault.diagnostic.code = "E201") ∧
      ∀ fault, (lax.emit (pairOf "x" "x")).1 = .error fault → fault.diagnostic.code ≠ "E201" := by
  intro strict lax
  have hextends := fun e => shadowing_conservative e 20 [] lax.warnings
  refine ⟨?_, ?_, ⟨_, rfl, rfl⟩, ⟨_, rfl, rfl⟩, (hextends _).2⟩
  · exact ((hextends (pairOf "x" "y")).1 nofun).1
  · apply ((hextends (pairOf "x" "1")).1 _).1
    intro fault hfault
    cases hfault
    decide

end Emitter

end CaseScript
