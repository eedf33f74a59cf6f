import CaseScript.Proofs.Expr.Encoding
import CaseScript.Proofs.Expr.Literals
import CaseScript.Proofs.Script.Draft

/-!
# The fault that is reported

There is a script just for the trees that are well named and whose integers can be written down. For
any other tree the first of its faults is reported and nothing else, unless there is too long an
integer before it. No tree that was read holds one, and no fault of an operator either.
-/

namespace CaseScript

/-- The code under which a fault is reported. -/
def NamingFault.code : NamingFault → String
  | invalidName _ _ => "E202"
  | invalidOperator _ _ => "E204"
  | boundTwice _ _ _ => "E201"
  | repeatedParameter _ _ _ => "E203"

namespace Finding

/-- Is this no fault of an operator? -/
def SparesOperators : Finding → Prop
  | fault (.invalidOperator _ _) => False
  | _ => True

theorem holdsOfNames_sparesOperators : HoldsOfNames SparesOperators where
  invalidName _ _ := trivial
  boundTwice _ _ _ := trivial
  repeatedParameter _ _ _ := trivial
  warning _ := trivial

theorem refusal?_ne_newline (finding : Finding) : finding.refusal? ≠ some .newline := by
  cases finding with
  | fault cause => simp [refusal?]
  | warning diagnostic => simp [refusal?]
  | literal value => cases h : value.fits <;> simp [refusal?, h]

end Finding

namespace Expr

open Finding

variable {shadowing : Bool}

theorem findings_sparesOperators {json : Json} {trail : Trail} {e : Expr} (h : e.Described json) :
    ∀ finding ∈ e.findings shadowing trail, finding.SparesOperators := by
  refine forall_mem_findings holdsOfNames_sparesOperators fun s hs => ?_
  cases s with
  | binop op left right =>
    intro hno
    obtain ⟨part, -, hpart⟩ := exists_described_of_mem .true trivial h _ hs
    cases hpart with
    | binop _ _ valid => exact absurd valid (Bool.eq_false_iff.mp hno)
  | cases subject clauses => exact fun _ _ _ _ => trivial
  | _ => trivial

theorem mem_faults_iff {trail : Trail} {e : Expr} {cause : NamingFault} :
    cause ∈ e.faults shadowing trail ↔ fault cause ∈ e.findings shadowing trail := by
  unfold faults
  rw [List.mem_filterMap]
  constructor
  · rintro ⟨finding, hfinding, heq⟩
    cases finding with
    | fault other => exact Option.some.inj heq ▸ hfinding
    | warning diagnostic => cases heq
    | literal value => cases heq
  · exact fun h => ⟨fault cause, h, rfl⟩

theorem wellNamed_and_writable_iff {e : Expr} :
    (∀ s ∈ e.subexprs, s.Fits shadowing) ↔ e.WellNamed shadowing ∧ e.Writable :=
  ⟨fun h => ⟨fun s hs => (h s hs).1, fun s hs => (h s hs).2⟩,
    fun h s hs => ⟨h.1 s hs, h.2 s hs⟩⟩

/-- A tree is written down as a script just if it is well named and its literals can be written
down; otherwise the first fault, or a literal before it, is all that the draft is given up at, and
never a newline in a text. Where all literals can be written down, as in any tree that was read from
a text, there is the script or one error, for the first of the faults. That is never a fault of an
operator if the tree was read from a JSON value. -/
theorem first_fault_reported (settings : Settings) (e : Expr) :
    (∀ refusal, e.draft settings = .error refusal ↔
        (e.findings settings.allowShadowing (.root "expr")).findSome? refusal? = some refusal) ∧
      e.draft settings ≠ .error .newline ∧
      ((∃ text, e.draft settings = .ok text) ↔
        e.WellNamed settings.allowShadowing ∧ e.Writable) ∧
      (∀ text, e.draft settings = .ok text → e.script settings = .ok text) ∧
      (e.Writable →
        e.draft settings =
            ((e.script settings).mapError fun cause => .compile [cause.diagnostic]) ∧
          ((∃ text, e.draft settings = .ok text) ↔ e.WellNamed settings.allowShadowing)) ∧
      (∀ source, ofSource source = .ok e → e.Writable) ∧
      (∀ cause, e.script settings = .error cause ↔
        (e.faults settings.allowShadowing (.root "expr")).head? = some cause) ∧
      (∀ cause : NamingFault, cause.diagnostic.severity = .error ∧
        cause.diagnostic.code = cause.code) ∧
      ∀ json, decode json = .ok e →
        ∀ cause, e.script settings = .error cause → cause.diagnostic.code ≠ "E204" := by
  have hdrafted := e.draftedBy_emission settings
  have hends : (∃ text, e.draft settings = .ok text) ↔
      e.WellNamed settings.allowShadowing ∧ e.Writable := by
    rw [hdrafted.exists_ok_iff, passes_findings_iff, wellNamed_and_writable_iff]
  have herror : ∀ cause, e.script settings = .error cause ↔
      (e.faults settings.allowShadowing (.root "expr")).head? = some cause := by
    intro cause
    rw [script_eq_error_iff, (e.reports_emission settings).eq_error_iff]
    rfl
  refine ⟨fun refusal => hdrafted.eq_error_iff, ?_, hends, fun text => script_of_draft, ?_,
    fun source => writable_of_ofSource, herror, ?_, ?_⟩
  · intro hnewline
    obtain ⟨finding, -, hfinding⟩ :=
      List.exists_of_findSome?_eq_some (hdrafted.eq_error_iff.mp hnewline)
    exact refusal?_ne_newline finding hfinding
  · intro hwritable
    exact ⟨draft_eq_naming_script hwritable, hends.trans (and_iff_left hwritable)⟩
  · intro cause
    cases cause <;> exact ⟨rfl, rfl⟩
  · intro json hdecode cause hcause
    have hmem : cause ∈ e.faults settings.allowShadowing (.root "expr") :=
      List.mem_of_head? ((herror cause).mp hcause)
    have hspared :=
      findings_sparesOperators (described_of_ofJson hdecode) _ (mem_faults_iff.mp hmem)
    cases cause with
    | invalidOperator op place => exact hspared.elim
    | _ => simp [NamingFault.diagnostic, Diagnostic.errorAt]

/-- A function with a parameter that is declared twice, and an invalid name behind it. -/
def twoFaults : Expr :=
  .lambda [Text.ofString "a", Text.ofString "b", Text.ofString "a"]
    (.binop (Text.ofString "+") (.var (Text.ofString "a")) (.var (Text.ofString "1x")))

theorem first_fault_reported_twoFaults :
    (∃ cause later, twoFaults.faults false (.root "expr") = [cause, later] ∧
      twoFaults.Writable ∧ ¬ twoFaults.WellNamed false ∧
      twoFaults.script {} = .error cause ∧
      twoFaults.draft {} = .error (.compile [cause.diagnostic]) ∧
      cause.diagnostic.code ≠ "E204") ∧
    ∃ n, (literal (.int n)).WellNamed false ∧
      (literal (.int n)).draft {} = .error (.oversized (.int n)) := by
  let place := Trail.root "expr"
  let cause := NamingFault.repeatedParameter (Text.ofString "a") (place.entry "params" 0)
    (place.entry "params" 2)
  let later := NamingFault.invalidName (Text.ofString "1x") ((place.field "body").field "right")
  have hfaults : twoFaults.faults false place = [cause, later] := by rfl
  have hdecode : decode twoFaults.json = .ok twoFaults := by rfl
  have hwritable : twoFaults.Writable := by simp [twoFaults, Writable, subexprs, LiteralsFit]
  obtain ⟨-, -, -, -, hwhole, -, herror, -, hcode⟩ := first_fault_reported {} twoFaults
  obtain ⟨hdraft, hends⟩ := hwhole hwritable
  have hscript : twoFaults.script {} = .error cause := by
    rw [herror]
    exact congrArg List.head? hfaults
  have hstop : twoFaults.draft {} = .error (.compile [cause.diagnostic]) := by
    rw [hdraft, hscript]
    rfl
  have hnamed : ¬ twoFaults.WellNamed false := by
    intro hnamed
    obtain ⟨text, htext⟩ := hends.mpr hnamed
    rw [hstop] at htext
    cases htext
  obtain ⟨n, hn⟩ := exists_isOversized
  refine ⟨⟨cause, later, hfaults, hwritable, hnamed, hscript, hstop,
    hcode _ hdecode cause hscript⟩, n, List.forall_mem_singleton.mpr trivial, ?_⟩
  exact draft_of_not_fits {} (congrArg not hn)

end Expr
end CaseScript
