import CaseScript.Proofs.Diagnostic.Trail
import CaseScript.Proofs.Script.FreeNames

/-!
# Declarations of scripts

Scripts declare identifiers of names and the identifiers that hold the subjects of matches. If every
match has an identifier of its own for its subject, no such identifier is declared twice.
-/

namespace CaseScript
namespace Script

open Js

/-- Every match gets an identifier of its own, which is neither one of a user's name nor a
global. -/
structure OwnNames (subjects : Trail → String) : Prop where
  injective : ∀ {place place' : Trail}, subjects place = subjects place' → place = place'
  ne_identifier : ∀ (place : Trail) {name : Text}, Name.isValid name = true →
    subjects place ≠ Name.identifier name
  notMem_globals : ∀ place, subjects place ∉ globals

variable {subjects : Trail → String} {shadowing : Bool}

theorem binders_joined (left : Expression) (op : String) (right : Expression) :
    (left.joined op right).binders =
      left.binders ++ (left.param? op).toList ++ right.binders := by
  rw [gathers_binders.joined]
  cases left.param? op <;> rfl

theorem overlooksNames_binders : OverlooksNames Expression.binders where
  literal _ := rfl
  name _ := rfl
  member _ _ := rfl
  item _ _ := rfl
  call callee arg := by simp [Expression.binders, Expression.bindersAll]
  operation _ _ _ := rfl

theorem bindersAll_clauseBody (lowering : Lowering String) (bodyTerm : Term) :
    Statement.bindersAll (Stmt.codes (declarations lowering ++ [.give bodyTerm])) =
      (lowering.bindings.map fun binding => Name.identifier binding.name) ++
        bodyTerm.code.binders := by
  unfold declarations
  induction lowering.bindings with
  | nil => simp [Stmt.codes, Stmt.code, Statement.bindersAll, Statement.binders]
  | cons binding rest ih =>
    simp only [List.map_cons, List.cons_append, Stmt.codes, Stmt.code, Statement.bindersAll,
      Statement.binders, Term.code, overlooksNames_binders.ref, later_ref, List.nil_append]
    exact congrArg (Name.identifier binding.name :: ·) ih

/-- Local definitions and matches become blocks that begin with a declaration. -/
theorem binders_block (identifier : String) (value : Term) (rest : List Stmt) :
    (Term.block (.declare identifier value :: rest)).code.binders =
      identifier :: value.code.later ++
        (value.code.binders ++ Statement.bindersAll (Stmt.codes rest)) := by
  simp [Term.code, Stmt.codes, Stmt.code, Expression.binders, Expression.bindersAll,
    Statement.bindersAll, Statement.binders]

theorem bindersAll_give (value : Term) :
    Statement.bindersAll (Stmt.codes [.give value]) = value.code.binders := by
  simp [Stmt.codes, Stmt.code, Statement.bindersAll, Statement.binders]

/-- An identifier that is declared for the subject of a match at or below a place, or for a name. -/
def Declarable (subjects : Trail → String) (below : Trail → Prop) (x : String) : Prop :=
  (∃ place, below place ∧ x = subjects place) ∨ Name.Identifies x

theorem Declarable.mono {below below' : Trail → Prop} (h : ∀ place, below place → below' place)
    {x : String} (hx : Declarable subjects below x) : Declarable subjects below' x := by
  rcases hx with ⟨place, hplace, hx⟩ | hx
  · exact .inl ⟨place, h place hplace, hx⟩
  · exact .inr hx

/-- Behind a comma, only identifiers of names are declared. -/
theorem declarable_of_mem_later {trail : Trail} {e : Expr} {term : Term}
    (h : Yields subjects shadowing trail e term) {below : Trail → Prop} {x : String}
    (hx : x ∈ term.code.later) : Declarable subjects below x :=
  .inr (identifies_of_mem_later h x hx)

theorem declarable_clauseBody {place : Trail} {subject : String} {p : Pattern}
    {lowering : Lowering String} (h : p.lower shadowing place subject = .ok lowering)
    {below : Trail → Prop} {bodyTerm : Term}
    (hbody : ∀ x ∈ bodyTerm.code.binders, Declarable subjects below x) :
    ∀ x ∈ Statement.bindersAll (Stmt.codes (declarations lowering ++ [.give bodyTerm])),
      Declarable subjects below x := by
  rw [bindersAll_clauseBody, List.forall_mem_append]
  refine ⟨fun x hx => ?_, hbody⟩
  obtain ⟨binding, hb, rfl⟩ := List.mem_map.mp hx
  exact .inr ⟨binding.name, isValid_of_mem_lower h hb, rfl⟩

mutual

theorem declarable_of_yields {trail : Trail} {e : Expr} {term : Term}
    (h : Yields subjects shadowing trail e term) :
    ∀ x ∈ term.code.binders, Declarable subjects trail.Leads x := by
  cases h with
  | literal trail value => simp [Term.code, Expression.binders]
  | var trail valid => simp [Term.code, Expression.binders]
  | list hitems =>
    intro x hx
    refine (declarable_of_yieldsItems hitems x hx).mono ?_
    rintro place ⟨i, -, hplace⟩
    exact hplace.of_item.of_field
  | binop hleft valid hright =>
    rw [Term.code, binders_joined, List.forall_mem_append, List.forall_mem_append]
    refine ⟨⟨fun x hx => ?_, fun x hx => ?_⟩, fun x hx => ?_⟩
    · exact (declarable_of_yields hleft x hx).mono fun _ hplace => hplace.of_field
    · exact .inr (identifies_of_param? hleft (Option.mem_toList.mp hx))
    · exact (declarable_of_yields hright x hx).mono fun _ hplace => hplace.of_field
  | letIn valid hvalue hbody =>
    intro x hx
    rw [binders_block, bindersAll_give, List.mem_append, List.mem_append, List.mem_cons] at hx
    rcases hx with (rfl | hx) | hx | hx
    · exact .inr ⟨_, valid, rfl⟩
    · exact declarable_of_mem_later hvalue hx
    · exact (declarable_of_yields hvalue x hx).mono fun _ hplace => hplace.of_field
    · exact (declarable_of_yields hbody x hx).mono fun _ hplace => hplace.of_field
  | apply hfunction hargs =>
    rw [Term.code, Expression.binders, binders_callee, List.forall_mem_append]
    constructor
    · intro x hx
      exact (declarable_of_yields hfunction x hx).mono fun _ hplace => hplace.of_field
    · intro x hx
      refine (declarable_of_yieldsItems hargs x hx).mono ?_
      rintro place ⟨i, -, hplace⟩
      exact hplace.of_item.of_field
  | lambda valid distinct hbody =>
    rw [Term.code, gathers_binders.overFirst fun e => gathers_binders.arrow _ e,
      List.forall_mem_append]
    constructor
    · intro x hx
      obtain ⟨param, hparam, rfl⟩ := List.mem_map.mp hx
      exact .inr ⟨param, valid param hparam, rfl⟩
    · intro x hx
      exact (declarable_of_yields hbody x hx).mono fun _ hplace => hplace.of_field
  | cases hsubject hclauses =>
    intro x hx
    rw [binders_block, List.mem_append, List.mem_append, List.mem_cons] at hx
    rcases hx with (rfl | hx) | hx | hx
    · exact .inl ⟨trail, .here, rfl⟩
    · exact declarable_of_mem_later hsubject hx
    · exact (declarable_of_yields hsubject x hx).mono fun _ hplace => hplace.of_field
    · refine (declarable_of_yieldsClauses hclauses x hx).mono ?_
      rintro place ⟨i, -, hplace⟩
      exact hplace.of_item.of_field

theorem declarable_of_yieldsItems {trail : Trail} {index : Nat} {items : List Expr}
    {terms : List Term} (h : YieldsItems subjects shadowing trail index items terms) :
    ∀ x ∈ Expression.bindersAll (Term.codes terms),
      Declarable subjects (fun place => ∃ i, index ≤ i ∧ (trail.item i).Leads place) x := by
  cases h with
  | nil trail index => simp [Term.codes, Expression.bindersAll]
  | cons hitem hrest =>
    rw [Term.codes, Expression.bindersAll, List.forall_mem_append]
    constructor
    · intro x hx
      exact (declarable_of_yields hitem x hx).mono fun _ hplace => ⟨_, Nat.le_refl _, hplace⟩
    · intro x hx
      refine (declarable_of_yieldsItems hrest x hx).mono ?_
      rintro place ⟨i, hi, hplace⟩
      exact ⟨i, Nat.le_of_succ_le hi, hplace⟩

theorem declarable_of_yieldsClauses {trail : Trail} {index : Nat} {clauses : List Clause}
    {stmts : List Stmt} (h : YieldsClauses subjects shadowing trail index clauses stmts) :
    ∀ x ∈ Statement.bindersAll (Stmt.codes stmts),
      Declarable subjects
        (fun place => ∃ i, index ≤ i ∧ (Decision.clause trail i).Leads place) x := by
  cases h with
  | failing =>
    simp [Stmt.codes, Stmt.code, Statement.bindersAll, Statement.binders, Expression.binders,
      Expression.bindersAll]
  | catchAll rest lowered total hbody =>
    refine declarable_clauseBody lowered fun x hx => ?_
    exact (declarable_of_yields hbody x hx).mono fun _ hplace => ⟨_, Nat.le_refl _, hplace.of_field⟩
  | guarded lowered partial_checks hbody hrest =>
    rw [Stmt.codes, Stmt.code, Statement.bindersAll, Statement.binders,
      overlooksNames_binders.condition, List.nil_append, List.forall_mem_append]
    constructor
    · refine declarable_clauseBody lowered fun x hx => ?_
      exact (declarable_of_yields hbody x hx).mono fun _ hplace =>
        ⟨_, Nat.le_refl _, hplace.of_field⟩
    · intro x hx
      refine (declarable_of_yieldsClauses hrest x hx).mono ?_
      rintro place ⟨i, hi, hplace⟩
      exact ⟨i, Nat.le_of_succ_le hi, hplace⟩

end

theorem count_append_le_one {x : String} {first second : List String}
    (hfirst : first.count x ≤ 1) (hsecond : second.count x ≤ 1) (h : x ∈ first → x ∉ second) :
    (first ++ second).count x ≤ 1 := by
  rw [List.count_append]
  by_cases hx : x ∈ first
  · have hzero : second.count x = 0 := List.count_eq_zero.mpr (h hx)
    omega
  · have hzero : first.count x = 0 := List.count_eq_zero.mpr hx
    omega

theorem OwnNames.below (h : OwnNames subjects) {below : Trail → Prop} {place : Trail}
    (hx : Declarable subjects below (subjects place)) : below place := by
  rcases hx with ⟨place', hbelow, heq⟩ | ⟨name, hvalid, heq⟩
  · exact h.injective heq ▸ hbelow
  · exact absurd heq (h.ne_identifier place hvalid)

theorem OwnNames.notMem_identifiers (h : OwnNames subjects) (place : Trail) {names : List Text}
    (hnames : ∀ name ∈ names, Name.isValid name = true) :
    subjects place ∉ names.map Name.identifier := by
  intro hmem
  obtain ⟨name, hname, heq⟩ := List.mem_map.mp hmem
  exact h.ne_identifier place (hnames name hname) heq.symm

/-- An identifier of a match's own is not one of a name. -/
theorem OwnNames.count_eq_zero (h : OwnNames subjects) (place : Trail) {names : List String}
    (hnames : ∀ x ∈ names, Name.Identifies x) : names.count (subjects place) = 0 := by
  refine List.count_eq_zero.mpr fun hmem => ?_
  obtain ⟨name, hvalid, heq⟩ := hnames _ hmem
  exact h.ne_identifier place hvalid heq

theorem count_clauseBody (hown : OwnNames subjects) {place : Trail} {subject : String}
    {p : Pattern} {lowering : Lowering String} (h : p.lower shadowing place subject = .ok lowering)
    (match_place : Trail) {bodyTerm : Term}
    (hbody : bodyTerm.code.binders.count (subjects match_place) ≤ 1) :
    (Statement.bindersAll (Stmt.codes (declarations lowering ++ [.give bodyTerm]))).count
      (subjects match_place) ≤ 1 := by
  have hnone : subjects match_place ∉
      lowering.bindings.map fun binding => Name.identifier binding.name := by
    intro hmem
    obtain ⟨binding, hb, heq⟩ := List.mem_map.mp hmem
    exact hown.ne_identifier match_place (isValid_of_mem_lower h hb) heq.symm
  rw [bindersAll_clauseBody, List.count_append, List.count_eq_zero.mpr hnone, Nat.zero_add]
  exact hbody

mutual

/-- An identifier of a match's own is declared only once. -/
theorem count_of_yields (hown : OwnNames subjects) {trail : Trail} {e : Expr} {term : Term}
    (h : Yields subjects shadowing trail e term) (place : Trail) :
    term.code.binders.count (subjects place) ≤ 1 := by
  cases h with
  | literal => exact Nat.zero_le 1
  | var => exact Nat.zero_le 1
  | list hitems => exact count_of_yieldsItems hown hitems place
  | binop hleft valid hright =>
    rename_i op left right leftTerm rightTerm
    have hparam : (leftTerm.code.param? op.shown).toList.count (subjects place) = 0 :=
      hown.count_eq_zero place fun x hx => identifies_of_param? hleft (Option.mem_toList.mp hx)
    rw [Term.code, binders_joined, List.count_append, List.count_append, hparam, Nat.add_zero,
      ← List.count_append]
    refine count_append_le_one (count_of_yields hown hleft place)
      (count_of_yields hown hright place) fun hl hr => ?_
    exact Trail.not_leads_of_field (by decide) (hown.below (declarable_of_yields hleft _ hl))
      (hown.below (declarable_of_yields hright _ hr))
  | letIn valid hvalue hbody =>
    rename_i name value body valueTerm bodyTerm
    have hnone : (Name.identifier name :: valueTerm.code.later).count (subjects place) = 0 := by
      refine hown.count_eq_zero place (List.forall_mem_cons.mpr ⟨⟨name, valid, rfl⟩, ?_⟩)
      exact identifies_of_mem_later hvalue
    rw [binders_block, bindersAll_give, List.count_append, hnone, Nat.zero_add]
    refine count_append_le_one (count_of_yields hown hvalue place)
      (count_of_yields hown hbody place) fun hv hb => ?_
    exact Trail.not_leads_of_field (by decide) (hown.below (declarable_of_yields hvalue _ hv))
      (hown.below (declarable_of_yields hbody _ hb))
  | apply hfunction hargs =>
    rw [Term.code, Expression.binders, binders_callee]
    refine count_append_le_one (count_of_yields hown hfunction place)
      (count_of_yieldsItems hown hargs place) fun hf ha => ?_
    obtain ⟨i, -, hplace⟩ := hown.below (declarable_of_yieldsItems hargs _ ha)
    exact Trail.not_leads_of_field (by decide)
      (hown.below (declarable_of_yields hfunction _ hf)) hplace.of_item
  | lambda valid distinct hbody =>
    rw [Term.code, gathers_binders.overFirst fun e => gathers_binders.arrow _ e,
      List.count_append, id, List.count_eq_zero.mpr (hown.notMem_identifiers place valid),
      Nat.zero_add]
    exact count_of_yields hown hbody place
  | cases hsubject hclauses =>
    have hlater := hown.count_eq_zero place (identifies_of_mem_later hsubject)
    rw [binders_block, List.cons_append, ← List.singleton_append, List.count_append,
      List.count_append, hlater, Nat.zero_add, ← List.count_append]
    refine count_append_le_one (by rw [List.count_singleton]; split <;> decide)
      (count_append_le_one (count_of_yields hown hsubject place)
        (count_of_yieldsClauses hown hclauses place) fun hs hc => ?_) fun htrail hinside => ?_
    · obtain ⟨i, -, hplace⟩ := hown.below (declarable_of_yieldsClauses hclauses _ hc)
      exact Trail.not_leads_of_field (by decide)
        (hown.below (declarable_of_yields hsubject _ hs)) hplace.of_item
    · have hsame : place = trail := hown.injective (List.mem_singleton.mp htrail)
      subst hsame
      rcases List.mem_append.mp hinside with hs | hc
      · exact Trail.not_leads_field_self _ (hown.below (declarable_of_yields hsubject _ hs))
      · obtain ⟨i, -, hplace⟩ := hown.below (declarable_of_yieldsClauses hclauses _ hc)
        exact Trail.not_leads_field_self _ hplace.of_item

theorem count_of_yieldsItems (hown : OwnNames subjects) {trail : Trail} {index : Nat}
    {items : List Expr} {terms : List Term}
    (h : YieldsItems subjects shadowing trail index items terms) (place : Trail) :
    (Expression.bindersAll (Term.codes terms)).count (subjects place) ≤ 1 := by
  cases h with
  | nil => exact Nat.zero_le 1
  | cons hitem hrest =>
    rw [Term.codes, Expression.bindersAll]
    refine count_append_le_one (count_of_yields hown hitem place)
      (count_of_yieldsItems hown hrest place) fun hi hr => ?_
    obtain ⟨i, hlater, hplace⟩ := hown.below (declarable_of_yieldsItems hrest _ hr)
    exact Trail.not_leads_of_item (Nat.ne_of_lt hlater)
      (hown.below (declarable_of_yields hitem _ hi)) hplace

theorem count_of_yieldsClauses (hown : OwnNames subjects) {trail : Trail} {index : Nat}
    {clauses : List Clause} {stmts : List Stmt}
    (h : YieldsClauses subjects shadowing trail index clauses stmts) (place : Trail) :
    (Statement.bindersAll (Stmt.codes stmts)).count (subjects place) ≤ 1 := by
  cases h with
  | failing => exact Nat.zero_le 1
  | catchAll rest lowered total hbody =>
    exact count_clauseBody hown lowered place (count_of_yields hown hbody place)
  | guarded lowered partial_checks hbody hrest =>
    rw [Stmt.codes, Stmt.code, Statement.bindersAll, Statement.binders,
      overlooksNames_binders.condition, List.nil_append]
    refine count_append_le_one
      (count_clauseBody hown lowered place (count_of_yields hown hbody place))
      (count_of_yieldsClauses hown hrest place) fun hb hr => ?_
    have hhere := hown.below
      (declarable_clauseBody lowered (declarable_of_yields hbody) _ hb)
    obtain ⟨i, hlater, hplace⟩ := hown.below (declarable_of_yieldsClauses hrest _ hr)
    exact Trail.not_leads_of_item (Nat.ne_of_lt hlater) hhere.of_field hplace

end

end Script
end CaseScript
