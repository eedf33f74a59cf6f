import CaseScript.Proofs.Script.Reports

/-!
# Clauses that are never reached

The warnings that an emitter is left with are those about the tree that it saw last, up to the first
fault in it. Trees that differ only in clauses that are never reached are all the same to an
emitter.
-/

namespace CaseScript

/-! ## Trees that agree -/

mutual

/-- Do two expressions differ at most in clauses that are never reached, which are equally many? -/
inductive Expr.Agrees : Expr → Expr → Prop
  | literal (value : Literal) : Expr.Agrees (.literal value) (.literal value)
  | var (name : Text) : Expr.Agrees (.var name) (.var name)
  | list {items items' : List Expr} (items_agree : Expr.ItemsAgree items items') :
    Expr.Agrees (.list items) (.list items')
  | binop (op : Text) {left left' right right' : Expr} (left_agrees : Expr.Agrees left left')
    (right_agrees : Expr.Agrees right right') :
    Expr.Agrees (.binop op left right) (.binop op left' right')
  | letIn (name : Text) {value value' body body' : Expr} (value_agrees : Expr.Agrees value value')
    (body_agrees : Expr.Agrees body body') :
    Expr.Agrees (.letIn name value body) (.letIn name value' body')
  | apply {function function' : Expr} {args args' : List Expr}
    (function_agrees : Expr.Agrees function function') (args_agree : Expr.ItemsAgree args args') :
    Expr.Agrees (.apply function args) (.apply function' args')
  | lambda (params : List Text) {body body' : Expr} (body_agrees : Expr.Agrees body body') :
    Expr.Agrees (.lambda params body) (.lambda params body')
  | cases {subject subject' : Expr} {clauses clauses' : List Clause}
    (subject_agrees : Expr.Agrees subject subject')
    (clauses_agree : Expr.ClausesAgree clauses clauses') :
    Expr.Agrees (.cases subject clauses) (.cases subject' clauses')

inductive Expr.ItemsAgree : List Expr → List Expr → Prop
  | nil : Expr.ItemsAgree [] []
  | cons {item item' : Expr} {rest rest' : List Expr} (item_agrees : Expr.Agrees item item')
    (rest_agree : Expr.ItemsAgree rest rest') : Expr.ItemsAgree (item :: rest) (item' :: rest')

/-- What comes after a clause that every value matches counts by its number alone. -/
inductive Expr.ClausesAgree : List Clause → List Clause → Prop
  | nil : Expr.ClausesAgree [] []
  | cons (pattern : Pattern) {body body' : Expr} {rest rest' : List Clause}
    (body_agrees : Expr.Agrees body body') (rest_agree : Expr.ClausesAgree rest rest') :
    Expr.ClausesAgree (⟨pattern, body⟩ :: rest) (⟨pattern, body'⟩ :: rest')
  | dropped {pattern : Pattern} {body body' : Expr} {rest rest' : List Clause}
    (total : pattern.catchesAll = true) (body_agrees : Expr.Agrees body body')
    (same_number : rest.length = rest'.length) :
    Expr.ClausesAgree (⟨pattern, body⟩ :: rest) (⟨pattern, body'⟩ :: rest')

end

namespace Expr

mutual

theorem agrees_refl (e : Expr) : e.Agrees e := by
  cases e with
  | literal value => exact .literal value
  | var name => exact .var name
  | list items => exact .list (itemsAgree_refl items)
  | binop op left right => exact .binop op (agrees_refl left) (agrees_refl right)
  | letIn name value body => exact .letIn name (agrees_refl value) (agrees_refl body)
  | apply function args => exact .apply (agrees_refl function) (itemsAgree_refl args)
  | lambda params body => exact .lambda params (agrees_refl body)
  | cases subject clauses => exact .cases (agrees_refl subject) (clausesAgree_refl clauses)

theorem itemsAgree_refl (items : List Expr) : ItemsAgree items items := by
  cases items with
  | nil => exact .nil
  | cons item rest => exact .cons (agrees_refl item) (itemsAgree_refl rest)

theorem clausesAgree_refl (clauses : List Clause) : ClausesAgree clauses clauses := by
  cases clauses with
  | nil => exact .nil
  | cons clause rest =>
    obtain ⟨pattern, body⟩ := clause
    exact .cons pattern (agrees_refl body) (clausesAgree_refl rest)

end

theorem ClausesAgree.length_eq {clauses clauses' : List Clause}
    (h : ClausesAgree clauses clauses') : clauses.length = clauses'.length := by
  induction clauses generalizing clauses' with
  | nil =>
    cases h
    rfl
  | cons clause rest ih =>
    cases h with
    | cons pattern body_agrees rest_agree => exact congrArg (· + 1) (ih rest_agree)
    | dropped total body_agrees same_number => exact congrArg (· + 1) same_number

end Expr

/-! ## Emissions of trees that agree -/

namespace Script

open CaseScript.Expr

variable {shadowing : Bool}

mutual

theorem ofExpr_eq_of_agrees {trail : Trail} {e e' : Expr} (h : e.Agrees e') :
    ofExpr shadowing trail e = ofExpr shadowing trail e' := by
  cases e with
  | literal value =>
    cases h
    rfl
  | var name =>
    cases h
    rfl
  | list items =>
    cases h with
    | list items_agree => rw [ofExpr, ofExpr, ofItems_eq_of_agree items_agree]
  | binop op left right =>
    cases h with
    | binop _ left_agrees right_agrees =>
      rw [ofExpr, ofExpr, ofExpr_eq_of_agrees left_agrees, ofExpr_eq_of_agrees right_agrees]
  | letIn name value body =>
    cases h with
    | letIn _ value_agrees body_agrees =>
      rw [ofExpr, ofExpr, ofExpr_eq_of_agrees value_agrees, ofExpr_eq_of_agrees body_agrees]
  | apply function args =>
    cases h with
    | apply function_agrees args_agree =>
      rw [ofExpr, ofExpr, ofExpr_eq_of_agrees function_agrees, ofItems_eq_of_agree args_agree]
  | lambda params body =>
    cases h with
    | lambda _ body_agrees => rw [ofExpr, ofExpr, ofExpr_eq_of_agrees body_agrees]
  | cases subject clauses =>
    cases h with
    | cases subject_agrees clauses_agree =>
      rw [ofExpr, ofExpr, ofExpr_eq_of_agrees subject_agrees, ofClauses_eq_of_agree clauses_agree]

theorem ofItems_eq_of_agree {trail : Trail} {index : Nat} {items items' : List Expr}
    (h : ItemsAgree items items') :
    ofItems shadowing trail index items = ofItems shadowing trail index items' := by
  cases items with
  | nil =>
    cases h
    rfl
  | cons item rest =>
    cases h with
    | cons item_agrees rest_agree =>
      rw [ofItems, ofItems, ofExpr_eq_of_agrees item_agrees, ofItems_eq_of_agree rest_agree]

theorem ofClauses_eq_of_agree {trail : Trail} {index : Nat} {clauses clauses' : List Clause}
    (h : ClausesAgree clauses clauses') :
    ofClauses shadowing trail index clauses = ofClauses shadowing trail index clauses' := by
  cases clauses with
  | nil =>
    cases h
    rfl
  | cons clause rest =>
    cases h with
    | cons pattern body_agrees rest_agree =>
      rw [ofClauses, ofClauses, ofExpr_eq_of_agrees body_agrees, ofClauses_eq_of_agree rest_agree,
        rest_agree.length_eq]
    | dropped total body_agrees same_number =>
      rename_i pattern body body' rest'
      rw [ofClauses, ofClauses, ofExpr_eq_of_agrees body_agrees, same_number]
      -- The clauses behind are looked at only if the pattern has checks, which it has not.
      cases hlower : pattern.lower shadowing ((Decision.clause trail index).field "pattern")
          Name.subject with
      | error fault => rfl
      | ok lowering =>
        have htotal : lowering.isCatchAll = true := (isCatchAll_lower hlower).trans total
        simp only [Emission.ofExcept, Emission.ok_bind, htotal, if_true]

end

end Script

/-! ## Emitters -/

namespace Emitter

/-- The emitter after some trees, whether there was a script for them or not. -/
def after (emitter : Emitter) (history : List Expr) : Emitter :=
  history.foldl (fun emitter e => (emitter.emit e).2) emitter

theorem settings_after (emitter : Emitter) (history : List Expr) :
    (emitter.after history).settings = emitter.settings := by
  induction history generalizing emitter with
  | nil => rfl
  | cons e rest ih => exact ih (emitter.emit e).2

/-- An emitter is left with the warnings about the tree that it saw last: all of them if there is a
script, and otherwise those before the first fault. Clauses that are never reached have no part in
what it gives and in what it is left with. -/
theorem warnings_up_to_fault (emitter : Emitter) (history : List Expr) (e : Expr) :
    let ran := (emitter.after history).emit e
    let findings := e.findings emitter.settings.allowShadowing (.root "expr")
    (∀ text, ran.1 = .ok text → ran.2.warnings = e.warnings (.root "expr")) ∧
      (∀ cause, ran.1 = .error cause →
        ran.2.warnings <+: e.warnings (.root "expr") ∧
          ∃ before after, findings = before ++ .fault cause :: after ∧
            before.filterMap Finding.fault? = [] ∧
            ran.2.warnings = before.filterMap Finding.warning?) ∧
      ∀ e', e.Agrees e' → (emitter.after history).emit e' = ran := by
  intro ran findings
  have hran : ran = (e.script emitter.settings,
      { emitter.after history with warnings := (e.emission emitter.settings).warnings }) := by
    rw [← settings_after emitter history]
    rfl
  have hreports : (e.emission emitter.settings).Reports findings := e.reports_emission _
  have hall : findings.filterMap Finding.warning? = e.warnings (.root "expr") :=
    e.warnings_findings _ _
  rw [hran]
  refine ⟨?_, ?_, ?_⟩
  · intro text htext
    obtain ⟨term, hterm⟩ := Expr.exists_script_iff.mp ⟨text, htext⟩
    unfold Script.Emission.Reports at hreports
    rw [hterm] at hreports
    exact hreports.2.trans hall
  · intro cause hcause
    unfold Script.Emission.Reports at hreports
    rw [Expr.script_eq_error_iff.mp hcause] at hreports
    obtain ⟨before, after, hsplit, hnone, hwarnings⟩ := hreports
    refine ⟨?_, before, after, hsplit, hnone, hwarnings⟩
    rw [← hall, hsplit, List.filterMap_append]
    exact ⟨_, congrArg (· ++ _) hwarnings⟩
  · intro e' hagrees
    have hemission : e'.emission emitter.settings = e.emission emitter.settings :=
      (Script.ofExpr_eq_of_agrees hagrees).symm
    have hscript : e'.script emitter.settings = e.script emitter.settings := by
      rw [Expr.script, Expr.script, hemission]
    rw [← hscript, ← hemission, ← settings_after emitter history]
    rfl

/-- A match with an invalid name in a clause, whose subject is a match that drops `clauses`. -/
def dropping (clauses : List Clause) : Expr :=
  let x := Expr.var (Text.ofString "x")
  .cases (.cases x (⟨.wildcard, x⟩ :: clauses)) [⟨.var (Text.ofString "1y"), x⟩]

theorem warnings_up_to_fault_dropping :
    let x := Expr.var (Text.ofString "x")
    let one := dropping [⟨.wildcard, x⟩]
    let other := dropping [⟨.var (Text.ofString "2z"), .cases x []⟩]
    let emitter := Emitter.after {} [dropping [], other]
    ∃ cause, (emitter.emit one).1 = .error cause ∧ emitter.emit other = emitter.emit one ∧
      (emitter.emit one).2.warnings =
        [Script.Decision.unreachable ((Trail.root "expr").field "subject") 0 1] ∧
      (emitter.emit one).2.warnings <+: one.warnings (.root "expr") := by
  intro x one other emitter
  have hagrees : one.Agrees other :=
    .cases (.cases (.var _) (.dropped rfl (.var _) rfl)) (Expr.clausesAgree_refl _)
  obtain ⟨-, hfault, hsame⟩ := warnings_up_to_fault {} [dropping [], other] one
  let place := (Script.Decision.clause (.root "expr") 0).field "pattern"
  have hone : (emitter.emit one).1 = .error (.invalidName (Text.ofString "1y") place) := by rfl
  exact ⟨_, hone, hsame other hagrees, by rfl, (hfault _ hone).1⟩

end Emitter

end CaseScript
