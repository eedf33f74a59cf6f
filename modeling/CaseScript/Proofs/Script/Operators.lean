import CaseScript.Proofs.Expr.FreeNames
import CaseScript.Proofs.Js.Operands
import CaseScript.Proofs.Name.Identifier
import CaseScript.Proofs.Pattern.Exactness
import CaseScript.Proofs.Script.FlatText

/-!
# Operators of expressions

Any text without blanks is taken as an operator and written as it stands, also one that JavaScript
does not read as an operator between two operands, and one that does more than join them. Here are
the expressions whose operators are read as they were meant, and what else the operators declare.
-/

namespace CaseScript
namespace Expr

/-- An operator that only joins its operands. -/
def OperatorJoins : Expr → Prop
  | binop op _ _ => op.shown ∈ Js.joiners
  | _ => True

/-- An operator that may stand between its operands. An arrow mark stands behind a variable only. -/
def OperatorFits : Expr → Prop
  | binop op left _ => op.shown ∈ Js.operators ∨ op.shown = "=>" ∧ ∃ name, left = var name
  | _ => True

/-- An operator that separates nothing. -/
def OperatorUnites : Expr → Prop
  | binop op _ _ => op.shown ≠ ","
  | _ => True

theorem OperatorJoins.fits {e : Expr} (h : e.OperatorJoins) : e.OperatorFits := by
  cases e with
  | binop op left right => exact .inl (List.mem_append_right _ h)
  | _ => trivial

mutual

/-- The names that would be declared if the expression stood behind a comma in a `let`. -/
def targets : Expr → List Text
  | var name => [name]
  | list items => itemsTargets items
  | binop _ left _ => left.targets
  | _ => []

def itemsTargets : List Expr → List Text
  | [] => []
  | item :: rest => item.targets ++ itemsTargets rest

end

/-- The names that the script of an expression declares, as the initialiser of a `let`, behind its
commas. -/
def later : Expr → List Text
  | binop op left right =>
    left.later ++ (if op.shown = "," then right.targets else []) ++ right.later
  | lambda _ body => body.later
  | _ => []

/-- The variable that an expression is. -/
def varName? : Expr → Option Text
  | var name => some name
  | _ => none

end Expr

namespace Script

open Js

section Code

variable {subjects subjects' : Trail → String} {shadowing shadowing' : Bool}

mutual

theorem targets_code {trail : Trail} {e : Expr} {term : Term}
    (h : Yields subjects shadowing trail e term) :
    term.code.targets = e.targets.map Name.identifier := by
  cases h with
  | list hitems => exact targetsAll_codes hitems
  | binop hleft valid hright => rw [Term.code, targets_joined, targets_code hleft, Expr.targets]
  | lambda valid distinct hbody => exact targets_overFirst [] (fun _ => rfl) _
  | _ => rfl

theorem targetsAll_codes {trail : Trail} {index : Nat} {items : List Expr} {terms : List Term}
    (h : YieldsItems subjects shadowing trail index items terms) :
    Expression.targetsAll (Term.codes terms) = (Expr.itemsTargets items).map Name.identifier := by
  cases h with
  | nil trail index => rfl
  | cons hitem hrest =>
    rw [Term.codes, Expression.targetsAll, targets_code hitem, targetsAll_codes hrest,
      Expr.itemsTargets, List.map_append]

end

mutual

theorem isValid_of_mem_targets {trail : Trail} {e : Expr} {term : Term}
    (h : Yields subjects shadowing trail e term) :
    ∀ name ∈ e.targets, Name.isValid name = true := by
  cases h with
  | var trail valid => simpa [Expr.targets] using valid
  | list hitems => exact isValid_of_mem_itemsTargets hitems
  | binop hleft valid hright =>
    rw [Expr.targets]
    exact isValid_of_mem_targets hleft
  | _ => simp [Expr.targets]

theorem isValid_of_mem_itemsTargets {trail : Trail} {index : Nat} {items : List Expr}
    {terms : List Term} (h : YieldsItems subjects shadowing trail index items terms) :
    ∀ name ∈ Expr.itemsTargets items, Name.isValid name = true := by
  cases h with
  | nil trail index => simp [Expr.itemsTargets]
  | cons hitem hrest =>
    rw [Expr.itemsTargets, List.forall_mem_append]
    exact ⟨isValid_of_mem_targets hitem, isValid_of_mem_itemsTargets hrest⟩

end

theorem isValid_of_mem_later {trail : Trail} {e : Expr} {term : Term}
    (h : Yields subjects shadowing trail e term) : ∀ name ∈ e.later, Name.isValid name = true := by
  cases h with
  | binop hleft valid hright =>
    rw [Expr.later, List.forall_mem_append, List.forall_mem_append]
    refine ⟨⟨isValid_of_mem_later hleft, ?_⟩, isValid_of_mem_later hright⟩
    split
    · exact isValid_of_mem_targets hright
    · simp
  | lambda valid distinct hbody =>
    rw [Expr.later]
    exact isValid_of_mem_later hbody
  | _ => simp [Expr.later]

theorem later_code {trail : Trail} {e : Expr} {term : Term}
    (h : Yields subjects shadowing trail e term) :
    term.code.later = e.later.map Name.identifier := by
  cases h with
  | binop hleft valid hright =>
    rw [Term.code, later_joined, later_code hleft, later_code hright, targets_code hright,
      Expr.later, List.map_append, List.map_append]
    split <;> rfl
  | lambda valid distinct hbody =>
    rw [Term.code, later_overFirst (fun _ _ _ heq => by cases heq), later_code hbody, Expr.later]
  | _ => rfl

/-- All names that the script of an expression declares behind commas are the user's. -/
theorem identifies_of_mem_later {trail : Trail} {e : Expr} {term : Term}
    (h : Yields subjects shadowing trail e term) : ∀ x ∈ term.code.later, Name.Identifies x := by
  rw [later_code h]
  intro x hx
  obtain ⟨name, hname, rfl⟩ := List.mem_map.mp hx
  exact ⟨name, isValid_of_mem_later h name hname, rfl⟩

/-- Where all operators join, there is no comma at the root of a script. -/
theorem isWhole_code {trail : Trail} {e : Expr} {term : Term}
    (h : Yields subjects shadowing trail e term) (hops : ∀ s ∈ e.subexprs, s.OperatorJoins) :
    term.code.IsWhole := by
  cases h with
  | binop hleft valid hright =>
    rw [Expr.subexprs, List.forall_mem_cons, List.forall_mem_append] at hops
    exact isWhole_joined hops.1 (isWhole_code hleft hops.2.1) (isWhole_code hright hops.2.2)
  | lambda valid distinct hbody =>
    rw [Expr.subexprs, List.forall_mem_cons] at hops
    rw [Term.code, overFirst_eq (isWhole_code hbody hops.2)]
    exact fun _ _ heq => by cases heq
  | _ => exact fun _ _ heq => by cases heq

/-- An arrow mark makes a parameter of the variable that an operand is. -/
theorem param?_code {trail : Trail} {e : Expr} {term : Term}
    (h : Yields subjects shadowing trail e term) (op : String) :
    term.code.param? op = if op = "=>" then e.varName?.map Name.identifier else none := by
  cases h with
  | var trail valid => rfl
  | binop hleft valid hright =>
    rw [Term.code, param?_joined]
    simp [Expr.varName?]
  | lambda valid distinct hbody =>
    rw [Term.code, param?_overFirst fun _ => rfl]
    simp [Expr.varName?]
  | _ => simp [Term.code, Expression.param?, Expr.varName?]

theorem needsParens_eq {trail trail' : Trail} {e : Expr} {term term' : Term}
    (h : Yields subjects shadowing trail e term) (h' : Yields subjects' shadowing' trail' e term') :
    term.needsParens = term'.needsParens := by
  cases h <;> cases h' <;> rfl

/-- Whatever the subjects are called, the scripts of an expression begin with the same name. -/
theorem leading_code_eq {trail trail' : Trail} {e : Expr} {term term' : Term}
    (h : Yields subjects shadowing trail e term) (h' : Yields subjects' shadowing' trail' e term') :
    term.code.leading = term'.code.leading := by
  cases h with
  | binop hleft valid hright =>
    cases h' with
    | binop hleft' valid' hright' =>
      rw [Term.code, Term.code, leading_joined, leading_joined, leading_code_eq hleft hleft']
  | apply hfunction hargs =>
    cases h' with
    | apply hfunction' hargs' =>
      have hparens := needsParens_eq hfunction hfunction'
      have hleading := leading_code_eq hfunction hfunction'
      rw [Term.code, Term.code, Expression.leading, Expression.leading, hparens]
      split
      · rfl
      · exact hleading
  | lambda valid distinct hbody =>
    cases h' with
    | lambda valid' distinct' hbody' =>
      rw [Term.code, Term.code, leading_overFirst none fun _ => rfl,
        leading_overFirst none fun _ => rfl]
  | _ => cases h'; rfl

/-- Only identifiers of names are made parameters. -/
theorem identifies_of_param? {trail : Trail} {e : Expr} {term : Term}
    (h : Yields subjects shadowing trail e term) {op x : String}
    (hx : term.code.param? op = some x) :
    Name.Identifies x := by
  rw [param?_code h] at hx
  split at hx
  · cases h with
    | var trail valid =>
      cases hx
      exact ⟨_, valid, rfl⟩
    | _ => cases hx
  · cases hx

theorem identifies_of_mem_trailing {trail : Trail} {e : Expr} {term : Term}
    (h : Yields subjects shadowing trail e term) :
    ∀ x ∈ term.code.trailing, Name.Identifies x := by
  cases h with
  | binop hleft valid hright =>
    intro x hx
    rcases mem_trailing_joined hx with hx | hx | hx
    · exact identifies_of_mem_trailing hleft x hx
    · exact identifies_of_param? hleft hx
    · exact identifies_of_mem_trailing hright x hx
  | lambda valid distinct hbody =>
    intro x hx
    rcases mem_trailing_overFirst _ (fun e he => List.mem_append.mp he) hx with hx | hx
    · obtain ⟨param, hparam, rfl⟩ := List.mem_map.mp hx
      exact ⟨param, valid param hparam, rfl⟩
    · exact identifies_of_mem_trailing hbody x hx
  | _ => simp [Term.code, Expression.trailing]

theorem operators_ref (ref : Ref String) : (ref.code .name).operators = [] := by
  induction ref with
  | subject s => rfl
  | item list index ih => exact ih
  | rest list start ih => simp [Ref.code, Expression.operators, Expression.operatorsAll, ih]

theorem mem_operators_conjunction {tests : List Expression} {op : String}
    (h : op ∈ (Js.conjunction tests).operators) :
    op = "&&" ∨ ∃ test ∈ tests, op ∈ test.operators := by
  cases tests with
  | nil => cases h
  | cons first rest =>
    rw [Js.conjunction] at h
    induction rest generalizing first with
    | nil => exact .inr ⟨first, List.mem_cons_self, h⟩
    | cons second rest ih =>
      rcases ih _ h with hop | ⟨test, htest, hop⟩
      · exact .inl hop
      · rcases List.mem_cons.mp htest with rfl | htest
        · rw [Expression.operators, List.mem_append, List.mem_append, List.mem_singleton] at hop
          rcases hop with (hop | rfl) | hop
          · exact .inr ⟨first, List.mem_cons_self, hop⟩
          · exact .inl rfl
          · exact .inr ⟨second, by simp, hop⟩
        · exact .inr ⟨test, by simp [htest], hop⟩

/-- Conditions have operators of their own. -/
theorem mem_operators_condition {checks : List (Check String)} {op : String}
    (h : op ∈ (Check.condition .name checks).operators) : op ∈ Js.operators := by
  rcases mem_operators_conjunction h with rfl | ⟨test, htest, hop⟩
  · decide
  · obtain ⟨check, -, htest⟩ := List.mem_flatMap.mp htest
    cases check with
    | length ref count atLeast =>
      simp only [Check.tests, List.mem_cons, List.not_mem_nil, or_false] at htest
      rcases htest with rfl | rfl
      · simp [Expression.operators, Expression.operatorsAll, operators_ref] at hop
      · have hmark : op = if atLeast then ">=" else "===" := by
          simpa [Expression.operators, operators_ref] using hop
        rw [hmark]
        split <;> decide
    | equals ref literal =>
      rw [Check.tests, List.mem_singleton] at htest
      subst htest
      have hmark : op = "===" := by simpa [Expression.operators, operators_ref] using hop
      rw [hmark]
      decide

theorem operatorsAll_clauseBody (lowering : Lowering String) (bodyTerm : Term) :
    Statement.operatorsAll (Stmt.codes (declarations lowering ++ [.give bodyTerm])) =
      bodyTerm.code.operators := by
  unfold declarations
  induction lowering.bindings with
  | nil => simp [Stmt.codes, Stmt.code, Statement.operatorsAll, Statement.operators]
  | cons binding rest ih =>
    rw [List.map_cons, List.cons_append, Stmt.codes, Statement.operatorsAll, Stmt.code,
      Statement.operators, Term.code, operators_ref, List.nil_append, ih]

theorem operators_callee (inParens : Bool) (callee : Expression) :
    (if inParens then Expression.parens callee else callee).operators = callee.operators := by
  cases inParens <;> rfl

mutual

/-- If all operators of an expression fit their operands, its script has JavaScript's own operators
only. -/
theorem mem_operators_code {trail : Trail} {e : Expr} {term : Term}
    (h : Yields subjects shadowing trail e term) (hops : ∀ s ∈ e.subexprs, s.OperatorFits) :
    ∀ op ∈ term.code.operators, op ∈ Js.operators := by
  cases h with
  | literal trail value => simp [Term.code, Expression.operators]
  | var trail valid => simp [Term.code, Expression.operators]
  | list hitems =>
    rw [Expr.subexprs, List.forall_mem_cons] at hops
    exact mem_operators_codes hitems hops.2
  | binop hleft valid hright =>
    rw [Expr.subexprs, List.forall_mem_cons, List.forall_mem_append] at hops
    rw [Term.code, gathers_operators.joined, List.forall_mem_append, List.forall_mem_append]
    refine ⟨⟨mem_operators_code hleft hops.2.1, ?_⟩, mem_operators_code hright hops.2.2⟩
    rcases hops.1 with hop | ⟨hop, name, rfl⟩
    · cases hparam : Expression.param? _ _ with
      | none => simpa using hop
      | some param => simp
    · rw [param?_code hleft, if_pos hop]
      simp [Expr.varName?]
  | letIn valid hvalue hbody =>
    rw [Expr.subexprs, List.forall_mem_cons, List.forall_mem_append] at hops
    simp only [Term.code, Stmt.codes, Stmt.code, Expression.operators, Expression.operatorsAll,
      Statement.operatorsAll, Statement.operators, List.append_nil, List.forall_mem_append]
    exact ⟨mem_operators_code hvalue hops.2.1, mem_operators_code hbody hops.2.2⟩
  | apply hfunction hargs =>
    rw [Expr.subexprs, List.forall_mem_cons, List.forall_mem_append] at hops
    rw [Term.code, Expression.operators, operators_callee, List.forall_mem_append]
    exact ⟨mem_operators_code hfunction hops.2.1, mem_operators_codes hargs hops.2.2⟩
  | lambda valid distinct hbody =>
    rw [Expr.subexprs, List.forall_mem_cons] at hops
    rw [Term.code, gathers_operators.overFirst fun e => gathers_operators.arrow _ e]
    exact mem_operators_code hbody hops.2
  | cases hsubject hclauses =>
    rw [Expr.subexprs, List.forall_mem_cons, List.forall_mem_append] at hops
    simp only [Term.code, Stmt.codes, Stmt.code, Expression.operators, Expression.operatorsAll,
      Statement.operatorsAll, Statement.operators, List.append_nil, List.forall_mem_append]
    exact ⟨mem_operators_code hsubject hops.2.1, mem_operators_stmtCodes hclauses hops.2.2⟩

theorem mem_operators_codes {trail : Trail} {index : Nat} {items : List Expr} {terms : List Term}
    (h : YieldsItems subjects shadowing trail index items terms)
    (hops : ∀ s ∈ Expr.itemSubexprs items, s.OperatorFits) :
    ∀ op ∈ Expression.operatorsAll (Term.codes terms), op ∈ Js.operators := by
  cases h with
  | nil trail index => simp [Term.codes, Expression.operatorsAll]
  | cons hitem hrest =>
    rw [Expr.itemSubexprs, List.forall_mem_append] at hops
    rw [Term.codes, Expression.operatorsAll, List.forall_mem_append]
    exact ⟨mem_operators_code hitem hops.1, mem_operators_codes hrest hops.2⟩

theorem mem_operators_stmtCodes {trail : Trail} {index : Nat} {clauses : List Clause}
    {stmts : List Stmt} (h : YieldsClauses subjects shadowing trail index clauses stmts)
    (hops : ∀ s ∈ Expr.clauseSubexprs clauses, s.OperatorFits) :
    ∀ op ∈ Statement.operatorsAll (Stmt.codes stmts), op ∈ Js.operators := by
  cases h with
  | failing trail index =>
    simp [Stmt.codes, Stmt.code, Statement.operatorsAll, Statement.operators, Expression.operators,
      Expression.operatorsAll]
  | catchAll rest lowered total hbody =>
    rw [Expr.clauseSubexprs, List.forall_mem_append] at hops
    rw [operatorsAll_clauseBody]
    exact mem_operators_code hbody hops.1
  | guarded lowered partial_checks hbody hrest =>
    rw [isCatchAll_lower lowered] at partial_checks
    simp only [Expr.clauseSubexprs, partial_checks, Bool.false_eq_true, if_false,
      List.forall_mem_append] at hops
    rw [Stmt.codes, Stmt.code, Statement.operatorsAll, Statement.operators,
      operatorsAll_clauseBody, List.forall_mem_append, List.forall_mem_append]
    exact ⟨⟨fun op => mem_operators_condition, mem_operators_code hbody hops.1⟩,
      mem_operators_stmtCodes hrest hops.2⟩

end

end Code

/-- JavaScript reads a script as the program that it stands for: the script is what this program is
written as, and there are no operators but JavaScript's. -/
structure Term.IsRead (term : Term) : Prop where
  written : term.doc.flatText = term.code.written
  operators : ∀ op ∈ term.code.operators, op ∈ Js.operators

theorem isRead_of_yields {subjects : Trail → String} {shadowing : Bool} {trail : Trail} {e : Expr}
    {term : Term} (h : Yields subjects shadowing trail e term)
    (hops : ∀ s ∈ e.subexprs, s.OperatorFits) : term.IsRead where
  written := flatText_doc h
  operators := mem_operators_code h hops

end Script
end CaseScript
