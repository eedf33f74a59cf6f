import CaseScript.Proofs.Expr.Findings
import CaseScript.Proofs.Pattern.Exactness
import CaseScript.Proofs.Script.Derivation

/-!
# What emissions report

An emission goes through the findings of a tree from the first on. The first fault ends it; if there
is none, it reaches the last finding. The warnings that it has passed are those that it leaves. All
literals count as written.
-/

namespace CaseScript

open Finding (fault? warning? ofName ofOperator ofParams ofBinding ofMentions ofDropped)

namespace Script
namespace Emission

variable {α β : Type} {x : Emission α} {first second : List Finding}

/-- Does an emission end at the first fault among these findings, or else succeed, with the warnings
that it has passed? -/
def Reports (x : Emission α) (findings : List Finding) : Prop :=
  match x.result with
  | .ok _ => findings.filterMap fault? = [] ∧ x.warnings = findings.filterMap warning?
  | .error fault =>
    ∃ before after, findings = before ++ .fault fault :: after ∧
      before.filterMap fault? = [] ∧ x.warnings = before.filterMap warning?

theorem reports_pure (a : α) : (pure a : Emission α).Reports [] := ⟨rfl, rfl⟩

/-- A literal is neither a fault nor a warning. -/
theorem Reports.literal (hx : x.Reports first) (value : Literal) :
    x.Reports (.literal value :: first) := by
  obtain ⟨decisions, result⟩ := x
  cases result with
  | ok a => exact hx
  | error fault =>
    obtain ⟨before, after, rfl, hnone, hwarnings⟩ := hx
    exact ⟨.literal value :: before, after, rfl, hnone, hwarnings⟩

theorem reports_decide {decision : Decision} (findings : List Finding)
    (hfaults : findings.filterMap fault? = [])
    (hwarnings : decision.warnings = findings.filterMap warning?) :
    (decide decision).Reports findings := by
  refine ⟨hfaults, ?_⟩
  rw [← hwarnings]
  exact List.flatMap_singleton _ decision

theorem Reports.bind {f : α → Emission β} (hx : x.Reports first)
    (hf : ∀ a, x.result = .ok a → (f a).Reports second) :
    (x >>= f).Reports (first ++ second) := by
  obtain ⟨decisions, result⟩ := x
  cases result with
  | error fault =>
    obtain ⟨before, after, rfl, hnone, hwarnings⟩ := hx
    exact ⟨before, after ++ second, by simp, hnone, hwarnings⟩
  | ok a =>
    obtain ⟨hnone, hwarnings⟩ := hx
    have hnext := hf a rfl
    rw [ok_bind]
    generalize f a = next at hnext ⊢
    obtain ⟨later, outcome⟩ := next
    have hpassed : ∀ passed, (⟨later, outcome⟩ : Emission β).warnings = passed →
        (decisions ++ later).flatMap Decision.warnings = first.filterMap warning? ++ passed := by
      rintro passed rfl
      rw [← hwarnings]
      exact List.flatMap_append
    cases outcome with
    | error fault =>
      obtain ⟨before, after, rfl, hbefore, hleft⟩ := hnext
      refine ⟨first ++ before, after, by simp, ?_, ?_⟩
      · rw [List.filterMap_append, hnone, hbefore, List.append_nil]
      · rw [List.filterMap_append]
        exact hpassed _ hleft
    | ok b =>
      obtain ⟨hlater, hleft⟩ := hnext
      constructor
      · rw [List.filterMap_append, hnone, hlater, List.append_nil]
      · rw [List.filterMap_append]
        exact hpassed _ hleft

/-- What is done to the result of an emission adds no findings. -/
theorem Reports.map (hx : x.Reports first) (f : α → β) :
    (x >>= fun a => pure (f a)).Reports first := by
  have h := hx.bind fun a _ => reports_pure (f a)
  rwa [List.append_nil] at h

theorem Reports.eq_error_iff (hx : x.Reports first) {fault : NamingFault} :
    x.result = .error fault ↔ (first.filterMap fault?).head? = some fault := by
  unfold Reports at hx
  cases hresult : x.result with
  | ok a =>
    rw [hresult] at hx
    simp [hx.1]
  | error other =>
    rw [hresult] at hx
    obtain ⟨before, after, rfl, hnone, -⟩ := hx
    simp [hnone, fault?]

/-! ## Names and operators -/

theorem reports_identifierAt (trail : Trail) (name : Text) :
    (ofExcept (Name.identifierAt trail name)).Reports (ofName trail name) := by
  unfold Name.identifierAt ofName
  by_cases h : Name.isValid name = true
  · rw [if_pos h, if_pos h]
    exact reports_pure (Name.identifier name)
  · rw [if_neg h, if_neg h]
    exact ⟨[], [], rfl, rfl, rfl⟩

theorem reports_operatorAt (trail : Trail) (op : Text) :
    (ofExcept (op.operatorAt trail)).Reports (ofOperator trail op) := by
  unfold Text.operatorAt ofOperator
  by_cases h : op.isOperator = true
  · rw [if_pos h, if_pos h]
    exact reports_pure op.shown
  · rw [if_neg h, if_neg h]
    exact ⟨[], [], rfl, rfl, rfl⟩

theorem ofExcept_bind (result : Except NamingFault α) (f : α → Except NamingFault β) :
    ofExcept (result >>= f) = ofExcept result >>= fun a => ofExcept (f a) := by
  cases result <;> rfl

theorem reports_parameters (trail : Trail) (before params : List Text) :
    (ofExcept (parameters trail before params)).Reports (ofParams trail before params) := by
  induction params generalizing before with
  | nil => exact reports_pure []
  | cons param rest ih =>
    rw [parameters, ofParams]
    cases before.idxOf? param with
    | some first => exact ⟨[], _, rfl, rfl, rfl⟩
    | none =>
      dsimp only
      rw [ofExcept_bind]
      refine (reports_identifierAt _ param).bind fun identifier _ => ?_
      rw [ofExcept_bind]
      exact (ih (before ++ [param])).map fun identifiers => identifier :: identifiers

end Emission
end Script

/-! ## Patterns -/

def Demand.mention? {σ : Type} : Demand σ → Option Mention
  | .check (.equals _ value) => some (.literal value)
  | .check (.length ..) => none
  | .bind binding => some (.name binding.name binding.trail)

namespace Pattern

variable {σ : Type}

mutual

theorem mentions_demands (ref : Ref σ) (trail : Trail) (p : Pattern) :
    (p.demands ref trail).filterMap Demand.mention? = p.mentions trail := by
  cases p with
  | literal value => rfl
  | var name => rfl
  | wildcard => rfl
  | list items => exact mentions_itemDemands ref (trail.field "items") 0 items
  | listTail items tail =>
    have hitems := mentions_itemDemands ref (trail.field "items") 0 items
    simp only [demands, mentions, List.filterMap_cons, List.filterMap_append, List.filterMap_nil,
      Demand.mention?, hitems]

theorem mentions_itemDemands (ref : Ref σ) (trail : Trail) (index : Nat) (items : List Pattern) :
    (itemDemands ref trail index items).filterMap Demand.mention? =
      itemMentions trail index items := by
  cases items with
  | nil => rfl
  | cons p rest =>
    rw [itemDemands, itemMentions, List.filterMap_append,
      mentions_demands (.item ref index) (trail.item index) p,
      mentions_itemDemands ref trail _ rest]

end

end Pattern

namespace Lowering

open Script.Emission

variable {σ : Type} {shadowing : Bool} {lowering : Lowering σ} {before : List (Text × Trail)}

/-- The place of the binding of a name is found among the places of all bindings. -/
theorem lookup_sites (bindings : List (Binding σ)) (name : Text) :
    (bindings.map Pattern.site).lookup name =
      (bindings.find? (·.name = name)).map Binding.trail := by
  induction bindings with
  | nil => rfl
  | cons binding rest ih =>
    rw [List.map_cons, Pattern.site, List.find?_cons, List.lookup_cons, ih]
    by_cases h : binding.name = name
    · simp [h]
    · have hother : (name == binding.name) = false := by simpa using Ne.symm h
      simp [h, hother]

theorem reports_bind (binding : Binding σ)
    (hbefore : shadowing = false → before = lowering.bindings.map Pattern.site) :
    (ofExcept (lowering.bind shadowing binding)).Reports
      (ofBinding shadowing before binding.name binding.trail) := by
  unfold bind ofBinding
  by_cases hvalid : Name.isValid binding.name = true
  · rw [if_pos hvalid, if_pos hvalid]
    cases shadowing with
    | true =>
      rw [if_pos rfl]
      cases lowering.binding? binding.name <;> exact reports_pure _
    | false =>
      rw [hbefore rfl, lookup_sites, if_neg Bool.false_ne_true]
      cases hfound : lowering.bindings.find? (·.name = binding.name) with
      | some first =>
        have hfirst : lowering.binding? binding.name = some first := hfound
        rw [hfirst]
        exact ⟨[], [], rfl, rfl, rfl⟩
      | none =>
        have hnone : lowering.binding? binding.name = none := hfound
        rw [hnone]
        exact reports_pure _
  · rw [if_neg hvalid, if_neg hvalid]
    exact ⟨[], [], rfl, rfl, rfl⟩

/-- What is bound before the next demand, told by the places. -/
theorem sites_meet {next : Lowering σ} {demand : Demand σ}
    (hbefore : before = lowering.bindings.map Pattern.site)
    (hnext : lowering.meet false demand = .ok next) :
    before ++ demand.binding?.toList.map Pattern.site = next.bindings.map Pattern.site := by
  rw [hbefore, bindings_meet hnext, List.map_append]

/-- Demands are met in turn; a check is always met. -/
theorem reports_meets (demands : List (Demand σ))
    (hbefore : shadowing = false → before = lowering.bindings.map Pattern.site) :
    (ofExcept (demands.foldlM (Lowering.meet shadowing) lowering)).Reports
      (ofMentions shadowing before (demands.filterMap Demand.mention?)) := by
  induction demands generalizing lowering before with
  | nil => exact reports_pure lowering
  | cons demand rest ih =>
    rw [List.foldlM_cons, ofExcept_bind]
    cases demand with
    | check check =>
      have hrest : (ofExcept (rest.foldlM (Lowering.meet shadowing)
          { lowering with checks := lowering.checks ++ [check] })).Reports
          (ofMentions shadowing before (rest.filterMap Demand.mention?)) := ih hbefore
      cases check with
      | length ref count atLeast => exact hrest
      | equals ref value => exact hrest.literal value
    | bind binding =>
      refine (reports_bind binding hbefore).bind fun next hnext => ih ?_
      rintro rfl
      have hmeet : lowering.meet false (.bind binding) = .ok next := hnext
      exact sites_meet (hbefore rfl) hmeet

end Lowering

/-- Demands are met one after the other, up to the first that cannot be met. -/
theorem Lowering.foldlM_meet {σ : Type} {shadowing : Bool} {lowering result : Lowering σ}
    {demands : List (Demand σ)} {stopped : Option NamingFault}
    (h : lowering.meetAll shadowing demands = (result, stopped)) :
    demands.foldlM (Lowering.meet shadowing) lowering = stopped.elim (.ok result) .error := by
  induction demands generalizing lowering with
  | nil =>
    cases h
    rfl
  | cons demand rest ih =>
    rw [meetAll] at h
    rw [List.foldlM_cons]
    cases hmeet : lowering.meet shadowing demand with
    | error fault =>
      rw [hmeet] at h
      cases h
      rfl
    | ok next =>
      rw [hmeet] at h
      exact ih h

theorem Pattern.lower_eq_foldlM {σ : Type} (shadowing : Bool) (trail : Trail) (subject : σ)
    (p : Pattern) :
    p.lower shadowing trail subject =
      (p.demands (.subject subject) trail).foldlM (Lowering.meet shadowing) {} := by
  unfold lower
  split
  · rename_i result h
    exact (Lowering.foldlM_meet h).symm
  · rename_i result stopped h
    exact (Lowering.foldlM_meet h).symm

namespace Script

open Emission

theorem reports_lower (shadowing : Bool) (trail : Trail) (subject : String) (p : Pattern) :
    (ofExcept (p.lower shadowing trail subject)).Reports
      (ofMentions shadowing [] (p.mentions trail)) := by
  rw [Pattern.lower_eq_foldlM, ← Pattern.mentions_demands (.subject subject) trail p]
  exact Lowering.reports_meets _ fun _ => rfl

/-! ## Whole trees -/

theorem reports_catchAll (trail : Trail) (index dropped : Nat) :
    (decide (.catchAll trail index dropped)).Reports (ofDropped trail index dropped) := by
  refine reports_decide _ (Finding.faults_ofDropped trail index dropped) ?_
  rw [Finding.warnings_ofDropped, List.range'_eq_map_range, List.map_map]
  rfl

variable (shadowing : Bool)

mutual

theorem reports_ofExpr (trail : Trail) (e : Expr) :
    (ofExpr shadowing trail e).Reports (e.findings shadowing trail) := by
  cases e with
  | literal value => exact (reports_pure (Term.literal value)).literal value
  | var name => exact (reports_identifierAt trail name).map Term.name
  | list items => exact (reports_ofItems (trail.field "items") 0 items).map Term.array
  | binop op left right =>
    refine (reports_ofExpr (trail.field "left") left).bind fun leftTerm _ => ?_
    refine (reports_operatorAt (trail.field "op") op).bind fun operator _ => ?_
    exact (reports_ofExpr (trail.field "right") right).map (Term.operation operator leftTerm)
  | letIn name value body =>
    refine (reports_identifierAt (trail.field "name") name).bind fun identifier _ => ?_
    refine (reports_ofExpr (trail.field "value") value).bind fun valueTerm _ => ?_
    exact (reports_ofExpr (trail.field "body") body).map fun bodyTerm =>
      Term.block [.declare identifier valueTerm, .give bodyTerm]
  | apply function args =>
    refine (reports_ofExpr (trail.field "function") function).bind fun functionTerm _ => ?_
    exact (reports_ofItems (trail.field "args") 0 args).map (Term.call functionTerm)
  | lambda params body =>
    refine (reports_parameters trail [] params).bind fun identifiers _ => ?_
    exact (reports_ofExpr (trail.field "body") body).map (Term.arrow identifiers)
  | cases subject clauses =>
    refine (reports_ofExpr (trail.field "subject") subject).bind fun subjectTerm _ => ?_
    exact (reports_ofClauses trail 0 clauses).map fun stmts =>
      Term.block (.declare Name.subject subjectTerm :: stmts)

theorem reports_ofItems (trail : Trail) (index : Nat) (items : List Expr) :
    (ofItems shadowing trail index items).Reports
      (Expr.itemFindings shadowing trail index items) := by
  cases items with
  | nil => exact reports_pure []
  | cons item rest =>
    refine (reports_ofExpr (trail.item index) item).bind fun term _ => ?_
    exact (reports_ofItems trail (index + 1) rest).map (term :: ·)

theorem reports_ofClauses (trail : Trail) (index : Nat) (clauses : List Clause) :
    (ofClauses shadowing trail index clauses).Reports
      (Expr.clauseFindings shadowing trail index clauses) := by
  cases clauses with
  | nil => exact (reports_decide [] rfl rfl).map fun _ => [Stmt.fail]
  | cons clause rest =>
    obtain ⟨pattern, body⟩ := clause
    let place := Decision.clause trail index
    refine (reports_lower shadowing (place.field "pattern") Name.subject pattern).bind
      fun lowering hlowering => ?_
    refine (reports_ofExpr (place.field "body") body).bind fun bodyTerm _ => ?_
    have htotal : lowering.isCatchAll = pattern.catchesAll := isCatchAll_lower hlowering
    rw [htotal]
    by_cases h : pattern.catchesAll = true
    · rw [if_pos h, if_pos h]
      exact (reports_catchAll trail index rest.length).map fun _ => _
    · rw [if_neg h, if_neg h]
      refine (reports_decide [] rfl rfl).bind fun _ _ => ?_
      exact (reports_ofClauses trail (index + 1) rest).map fun stmts =>
        Stmt.guarded lowering.checks (declarations lowering ++ [.give bodyTerm]) :: stmts

end

end Script

namespace Expr

/-- The emission of a tree goes through all that is to be found in it. -/
theorem reports_emission (settings : Settings) (e : Expr) :
    (e.emission settings).Reports (e.findings settings.allowShadowing (.root "expr")) :=
  Script.reports_ofExpr settings.allowShadowing (.root "expr") e

theorem script_eq_error_iff {settings : Settings} {e : Expr} {cause : NamingFault} :
    e.script settings = .error cause ↔ (e.emission settings).result = .error cause := by
  unfold script
  cases (e.emission settings).result <;> simp [Except.map]

theorem exists_script_iff {settings : Settings} {e : Expr} :
    (∃ text, e.script settings = .ok text) ↔ ∃ term, (e.emission settings).result = .ok term := by
  unfold script
  cases (e.emission settings).result <;> simp [Except.map]

end Expr
end CaseScript
