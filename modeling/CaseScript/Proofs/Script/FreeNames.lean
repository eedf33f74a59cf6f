import CaseScript.Proofs.Script.FlatText
import CaseScript.Proofs.Script.Operators
import CaseScript.Proofs.Script.Parts

/-!
# Free identifiers of scripts

Beside the globals that checks and failures refer to, the free identifiers of a script are those of
the names that its tree exposes. Thus a script keeps the scoping of its tree unless a name is
captured by the clause that ends a match or by a function that ends a left operand.
-/

namespace CaseScript

open Js

/-! ## References and conditions -/

variable {σ : Type} {name : String}

theorem Ref.free_code (ref : Ref σ) : (ref.code fun _ => .name name).free = [name] := by
  induction ref with
  | subject s => rfl
  | item list index ih => exact ih
  | rest list start ih => simp [code, Expression.free, Expression.freeAll, ih]

theorem Check.free_condition (checks : List (Check σ)) :
    ∀ x ∈ (Check.condition (fun _ => .name name) checks).free, x = "Array" ∨ x = name := by
  intro x hx
  rw [Check.condition, Js.free_conjunction, List.mem_flatMap] at hx
  obtain ⟨test, htest, hx⟩ := hx
  obtain ⟨check, -, htest⟩ := List.mem_flatMap.mp htest
  cases check with
  | length ref count atLeast =>
    simp only [tests, List.mem_cons, List.not_mem_nil, or_false] at htest
    rcases htest with rfl | rfl
    · simpa [Expression.free, Expression.freeAll, Ref.free_code] using hx
    · right
      simpa [Expression.free, Ref.free_code] using hx
  | equals ref literal =>
    simp only [tests, List.mem_singleton] at htest
    subst htest
    right
    simpa [Expression.free, Ref.free_code] using hx

namespace Script

/-- The globals that scripts refer to on their own. -/
def globals : List String := ["Array", "Error"]

theorem identifier_notMem_globals (name : Text) : Name.identifier name ∉ globals := by
  intro h
  have hreserved : ∀ word ∈ globals, word ∈ Name.reserved := by decide +kernel
  exact Name.identifier_notMem_reserved name (hreserved _ h)

section Clause

variable {shadowing : Bool} {place : Trail} {subject : String} {p : Pattern}
  {lowering : Lowering String}

theorem free_condition_lower (h : p.lower shadowing place subject = .ok lowering) :
    ∀ x ∈ (Check.condition .name lowering.checks).free, x = "Array" ∨ x = subject := by
  obtain ⟨shape, -, rfl⟩ := Pattern.exists_shape h
  rw [Lowering.map, Check.condition_map]
  exact Check.free_condition shape.checks

/-- The declarations of a clause name nothing but the subject. -/
theorem freeAll_clauseBody (h : p.lower shadowing place subject = .ok lowering) (bodyTerm : Term) :
    Statement.freeAll (Stmt.codes (declarations lowering ++ [.give bodyTerm])) =
      (lowering.bindings.map fun _ => subject) ++ bodyTerm.code.free := by
  obtain ⟨shape, -, rfl⟩ := Pattern.exists_shape h
  unfold declarations Lowering.map
  induction shape.bindings with
  | nil => simp [Stmt.codes, Stmt.code, Statement.freeAll, Statement.free]
  | cons binding rest ih =>
    have href : ((binding.ref.map fun _ => subject).code .name).free = [subject] := by
      rw [Ref.code_map]
      exact binding.ref.free_code
    simp only [List.map_cons, List.cons_append, Stmt.codes, Stmt.code, Statement.freeAll,
      Statement.free, Term.code, Binding.map, href, List.nil_append]
    exact congrArg (subject :: ·) ih

end Clause

/-! ## Names of the tree -/

section Names

variable {subjects : Trail → String} {shadowing : Bool}

mutual

theorem isValid_of_mem_free {trail : Trail} {e : Expr} {term : Term}
    (h : Yields subjects shadowing trail e term) :
    ∀ name ∈ e.free, Name.isValid name = true := by
  cases h with
  | literal trail value => simp [Expr.free]
  | var trail valid => simpa [Expr.free] using valid
  | list hitems => exact isValid_of_mem_itemsFree hitems
  | binop hleft valid hright =>
    rw [Expr.free, List.forall_mem_append]
    exact ⟨isValid_of_mem_free hleft, isValid_of_mem_free hright⟩
  | letIn valid hvalue hbody =>
    rw [Expr.free]
    intro name hname
    rcases List.mem_append.mp (List.mem_filter.mp hname).1 with hname | hname
    · exact isValid_of_mem_free hvalue name hname
    · exact isValid_of_mem_free hbody name hname
  | apply hfunction hargs =>
    rw [Expr.free, List.forall_mem_append]
    exact ⟨isValid_of_mem_free hfunction, isValid_of_mem_itemsFree hargs⟩
  | lambda valid distinct hbody =>
    rw [Expr.free]
    intro name hname
    exact isValid_of_mem_free hbody name (List.mem_filter.mp hname).1
  | cases hsubject hclauses =>
    rw [Expr.free, List.forall_mem_append]
    exact ⟨isValid_of_mem_free hsubject, isValid_of_mem_clausesFree hclauses⟩

theorem isValid_of_mem_itemsFree {trail : Trail} {index : Nat} {items : List Expr}
    {terms : List Term} (h : YieldsItems subjects shadowing trail index items terms) :
    ∀ name ∈ Expr.itemsFree items, Name.isValid name = true := by
  cases h with
  | nil trail index => simp [Expr.itemsFree]
  | cons hitem hrest =>
    rw [Expr.itemsFree, List.forall_mem_append]
    exact ⟨isValid_of_mem_free hitem, isValid_of_mem_itemsFree hrest⟩

theorem isValid_of_mem_clausesFree {trail : Trail} {index : Nat} {clauses : List Clause}
    {stmts : List Stmt} (h : YieldsClauses subjects shadowing trail index clauses stmts) :
    ∀ name ∈ Expr.clausesFree clauses, Name.isValid name = true := by
  cases h with
  | failing trail index => simp [Expr.clausesFree]
  | catchAll rest lowered total hbody =>
    rw [isCatchAll_lower lowered] at total
    simp only [Expr.clausesFree, total, if_true, List.append_nil]
    intro name hname
    exact isValid_of_mem_free hbody name (List.mem_filter.mp hname).1
  | guarded lowered partial_checks hbody hrest =>
    rw [isCatchAll_lower lowered] at partial_checks
    simp only [Expr.clausesFree, partial_checks, Bool.false_eq_true, if_false]
    rw [List.forall_mem_append]
    refine ⟨fun name hname => ?_, isValid_of_mem_clausesFree hrest⟩
    exact isValid_of_mem_free hbody name (List.mem_filter.mp hname).1

end

theorem isValid_of_mem_exposed {trail : Trail} {e : Expr} {term : Term}
    (h : Yields subjects shadowing trail e term) :
    ∀ name ∈ e.exposed, Name.isValid name = true :=
  fun name hname => isValid_of_mem_free h name (e.exposed_sublist.subset hname)

theorem isValid_of_mem_clausesExposed {trail : Trail} {index : Nat} {clauses : List Clause}
    {stmts : List Stmt} (h : YieldsClauses subjects shadowing trail index clauses stmts) :
    ∀ name ∈ Expr.clausesExposed clauses, Name.isValid name = true := by
  induction clauses generalizing index stmts with
  | nil => simp [Expr.clausesExposed]
  | cons clause rest ih =>
    cases h with
    | catchAll _ lowered total hbody =>
      rw [isCatchAll_lower lowered] at total
      simp only [Expr.clausesExposed, total, if_true]
      exact isValid_of_mem_exposed hbody
    | guarded lowered partial_checks hbody hrest =>
      rw [isCatchAll_lower lowered] at partial_checks
      simp only [Expr.clausesExposed, partial_checks, Bool.false_eq_true, if_false]
      rw [List.forall_mem_append]
      refine ⟨fun name hname => ?_, ih hrest⟩
      exact isValid_of_mem_exposed hbody name (List.mem_filter.mp hname).1

theorem isValid_of_mem_trailing {trail : Trail} {e : Expr} {term : Term}
    (h : Yields subjects shadowing trail e term) :
    ∀ name ∈ e.trailing, Name.isValid name = true := by
  cases h with
  | binop hleft valid hright =>
    rw [Expr.trailing, List.forall_mem_append]
    exact ⟨isValid_of_mem_trailing hleft, isValid_of_mem_trailing hright⟩
  | lambda valid distinct hbody =>
    rw [Expr.trailing, List.forall_mem_append]
    exact ⟨valid, isValid_of_mem_trailing hbody⟩
  | _ => simp [Expr.trailing]

theorem trailing_code {trail : Trail} {e : Expr} {term : Term}
    (h : Yields subjects shadowing trail e term) (hops : ∀ s ∈ e.subexprs, s.OperatorJoins) :
    term.code.trailing = e.trailing.map Name.identifier := by
  cases h with
  | binop hleft valid hright =>
    rw [Expr.subexprs, List.forall_mem_cons, List.forall_mem_append] at hops
    obtain ⟨hop, hleftOps, hrightOps⟩ := hops
    have hleftWhole := isWhole_code hleft hleftOps
    have hrightWhole := isWhole_code hright hrightOps
    rw [Term.code, trailing_joined hop hleftWhole hrightWhole, trailing_code hleft hleftOps,
      trailing_code hright hrightOps, Expr.trailing, List.map_append]
  | lambda valid distinct hbody =>
    rw [Expr.subexprs, List.forall_mem_cons] at hops
    rw [Term.code, overFirst_eq (isWhole_code hbody hops.2), Expression.trailing,
      trailing_code hbody hops.2, Expr.trailing, List.map_append]
  | _ => rfl

theorem identifier_mem_map {names : List Text} (hnames : ∀ other ∈ names, Name.isValid other = true)
    {name : Text} (hname : Name.isValid name = true) :
    Name.identifier name ∈ names.map Name.identifier ↔ name ∈ names := by
  refine ⟨fun h => ?_, List.mem_map_of_mem⟩
  obtain ⟨other, hother, he⟩ := List.mem_map.mp h
  exact Name.identifier_injective (hnames other hother) hname he ▸ hother

theorem filter_identifiers {names : List Text} {p : String → Bool} {q : Text → Bool}
    (h : ∀ name ∈ names, p (Name.identifier name) = q name) :
    (names.map Name.identifier).filter p = (names.filter q).map Name.identifier := by
  rw [List.filter_map]
  exact congrArg (List.map Name.identifier) (List.filter_congr h)

theorem filter_comm {α : Type} (p q : α → Bool) (l : List α) :
    (l.filter p).filter q = (l.filter q).filter p := by
  rw [List.filter_filter, List.filter_filter]
  exact List.filter_congr fun a _ => Bool.and_comm _ _

end Names

/-! ## Identifiers of scripts -/

section Emitted

variable {shadowing : Bool} {trail : Trail} {index : Nat} {clauses : List Clause}
  {stmts : List Stmt}

/-- The names of a pattern are declared under their identifiers. -/
theorem mem_declared_clauseBody {place : Trail} {subject : String} {p : Pattern}
    {lowering : Lowering String} (h : p.lower shadowing place subject = .ok lowering)
    (bodyTerm : Term) {name : Text} (hname : Name.isValid name = true) :
    Name.identifier name ∈ declared (Stmt.codes (declarations lowering ++ [.give bodyTerm])) ↔
      name ∈ p.names := by
  have hvalid : ∀ other ∈ lowering.bindings.map (·.name), Name.isValid other = true := by
    intro other hother
    obtain ⟨binding, hb, rfl⟩ := List.mem_map.mp hother
    exact isValid_of_mem_lower h hb
  have hnames : (lowering.bindings.map fun binding => Name.identifier binding.name) =
      (lowering.bindings.map (·.name)).map Name.identifier := by
    rw [List.map_map]
    rfl
  rw [declared_clauseBody, hnames, identifier_mem_map hvalid hname, mem_names_lower h]

/-- Only the clause that ends a match declares its names in the block of the match. -/
theorem mem_declared_clauses {subjects : Trail → String}
    (h : YieldsClauses subjects shadowing trail index clauses stmts) {name : Text}
    (hname : Name.isValid name = true) :
    Name.identifier name ∈ declared (Stmt.codes stmts) ↔ name ∈ Clause.finalNames clauses := by
  induction clauses generalizing index stmts with
  | nil =>
    cases h
    simp [Stmt.codes, Stmt.code, declared, Clause.finalNames]
  | cons clause rest ih =>
    cases h with
    | catchAll _ lowered total hbody =>
      rw [mem_declared_clauseBody lowered _ hname]
      rw [isCatchAll_lower lowered] at total
      simp [Clause.finalNames, total]
    | guarded lowered partial_checks hbody hrest =>
      rw [isCatchAll_lower lowered] at partial_checks
      simp only [Stmt.codes, Stmt.code, declared, Clause.finalNames, partial_checks,
        Bool.false_eq_true, if_false]
      exact ih hrest

theorem free_block (identifier : String) (value : Term) (rest : List Stmt) :
    (Term.block (.declare identifier value :: rest)).code.free =
      (value.code.free ++ Statement.freeAll (Stmt.codes rest)).filter
        (· ∉ identifier :: (value.code.later ++ declared (Stmt.codes rest))) := by
  simp [Term.code, Stmt.codes, Stmt.code, Expression.free, Expression.freeAll,
    Statement.freeAll, Statement.free, declared]

/-- What is free in the body of a clause is free in the value that it gives back. -/
theorem filter_clauseBody {place : Trail} {p : Pattern} {lowering : Lowering String}
    (h : p.lower shadowing place Name.subject = .ok lowering) {body : Expr} {bodyTerm : Term}
    (hvalid : ∀ name ∈ body.exposed, Name.isValid name = true)
    (hbody : bodyTerm.code.free.filter (· ∉ globals) = body.exposed.map Name.identifier) :
    (Statement.freeAll (Stmt.codes (declarations lowering ++ [.give bodyTerm]))).filter
        (· ∉ Name.subject :: globals) =
      body.exposed.map Name.identifier := by
  have hsubjects : ((lowering.bindings.map fun _ => Name.subject).filter
      (· ∉ Name.subject :: globals)) = [] := by
    rw [List.filter_eq_nil_iff]
    intro x hx
    obtain ⟨_, _, rfl⟩ := List.mem_map.mp hx
    simp
  have hgiven : bodyTerm.code.free.filter (· ∉ Name.subject :: globals) =
      (bodyTerm.code.free.filter (· ∉ globals)).filter (· ≠ Name.subject) := by
    rw [List.filter_filter]
    exact List.filter_congr fun x _ => by simp
  rw [freeAll_clauseBody h, List.filter_append, hsubjects, List.nil_append, hgiven, hbody,
    List.filter_eq_self]
  intro x hx
  obtain ⟨name, hname, rfl⟩ := List.mem_map.mp hx
  simpa using Name.identifier_ne_subject (hvalid name hname)

mutual

/-- The free identifiers of a script, without the globals: those of the exposed names. -/
theorem filter_free_code {trail : Trail} {e : Expr} {term : Term}
    (h : Yields oneSubject shadowing trail e term) (hops : ∀ s ∈ e.subexprs, s.OperatorJoins) :
    term.code.free.filter (· ∉ globals) = e.exposed.map Name.identifier := by
  cases h with
  | literal trail value => rfl
  | var trail valid =>
    have hnot := identifier_notMem_globals ‹Text›
    simp [Term.code, Expression.free, Expr.exposed, hnot]
  | list hitems =>
    rw [Expr.subexprs, List.forall_mem_cons] at hops
    exact filter_freeAll_codes hitems hops.2
  | binop hleft valid hright =>
    rw [Expr.subexprs, List.forall_mem_cons, List.forall_mem_append] at hops
    obtain ⟨hop, hleftOps, hrightOps⟩ := hops
    have hleftWhole := isWhole_code hleft hleftOps
    have hrightWhole := isWhole_code hright hrightOps
    rw [Term.code, free_joined hop hleftWhole hrightWhole, List.filter_append, filter_comm,
      filter_free_code hleft hleftOps, filter_free_code hright hrightOps, Expr.exposed,
      List.map_append, trailing_code hleft hleftOps]
    congr 1
    refine filter_identifiers fun name hname => ?_
    simp [identifier_mem_map (isValid_of_mem_trailing hleft)
      (isValid_of_mem_exposed hright name hname)]
  | letIn valid hvalue hbody =>
    rename_i name value body valueTerm bodyTerm
    rw [Expr.subexprs, List.forall_mem_cons, List.forall_mem_append] at hops
    have hlater : valueTerm.code.later = [] := later_eq_nil (isWhole_code hvalue hops.2.1)
    have hdeclared : declared (Stmt.codes [.give bodyTerm]) = [] := rfl
    have hgiven : Statement.freeAll (Stmt.codes [.give bodyTerm]) = bodyTerm.code.free := by
      simp [Stmt.codes, Stmt.code, Statement.freeAll, Statement.free]
    rw [free_block, hlater, hdeclared, hgiven, filter_comm, List.filter_append,
      filter_free_code hvalue hops.2.1, filter_free_code hbody hops.2.2, ← List.map_append,
      Expr.exposed]
    refine filter_identifiers fun other hother => ?_
    have hvalid : Name.isValid other = true := by
      rcases List.mem_append.mp hother with hother | hother
      · exact isValid_of_mem_exposed hvalue other hother
      · exact isValid_of_mem_exposed hbody other hother
    have hsame : Name.identifier other = Name.identifier name ↔ other = name :=
      ⟨Name.identifier_injective hvalid valid, congrArg Name.identifier⟩
    simp [hsame]
  | apply hfunction hargs =>
    rw [Expr.subexprs, List.forall_mem_cons, List.forall_mem_append] at hops
    rw [Term.code, Expression.free, free_callee, List.filter_append,
      filter_free_code hfunction hops.2.1, filter_freeAll_codes hargs hops.2.2, Expr.exposed,
      List.map_append]
  | lambda valid distinct hbody =>
    rw [Expr.subexprs, List.forall_mem_cons] at hops
    rw [Term.code, overFirst_eq (isWhole_code hbody hops.2), Expression.free, filter_comm,
      filter_free_code hbody hops.2, Expr.exposed]
    refine filter_identifiers fun name hname => ?_
    simp [identifier_mem_map valid (isValid_of_mem_exposed hbody name hname)]
  | cases hsubject hclauses =>
    rename_i subject clauses subjectTerm stmts
    rw [Expr.subexprs, List.forall_mem_cons, List.forall_mem_append] at hops
    have hlater : subjectTerm.code.later = [] := later_eq_nil (isWhole_code hsubject hops.2.1)
    have hsubjects : ((Statement.freeAll (Stmt.codes stmts)).filter (· ∉ globals)).filter
          (· ∉ Name.subject :: declared (Stmt.codes stmts)) =
        ((Statement.freeAll (Stmt.codes stmts)).filter (· ∉ Name.subject :: globals)).filter
          (· ∉ Name.subject :: declared (Stmt.codes stmts)) := by
      rw [List.filter_filter, List.filter_filter]
      refine List.filter_congr fun x _ => ?_
      by_cases hx : x = Name.subject <;> simp [hx]
    rw [oneSubject, free_block, hlater, List.nil_append, filter_comm, List.filter_append,
      List.filter_append, hsubjects, filter_free_code hsubject hops.2.1,
      filter_freeAll_stmtCodes hclauses hops.2.2, ← List.filter_append, ← List.map_append,
      Expr.exposed]
    refine filter_identifiers fun name hname => ?_
    have hvalid : Name.isValid name = true := by
      rcases List.mem_append.mp hname with hname | hname
      · exact isValid_of_mem_exposed hsubject name hname
      · exact isValid_of_mem_clausesExposed hclauses name hname
    simp [mem_declared_clauses hclauses hvalid, Name.identifier_ne_subject hvalid]

theorem filter_freeAll_codes {trail : Trail} {index : Nat} {items : List Expr} {terms : List Term}
    (h : YieldsItems oneSubject shadowing trail index items terms)
    (hops : ∀ s ∈ Expr.itemSubexprs items, s.OperatorJoins) :
    (Expression.freeAll (Term.codes terms)).filter (· ∉ globals) =
      (Expr.itemsExposed items).map Name.identifier := by
  cases h with
  | nil trail index => rfl
  | cons hitem hrest =>
    rw [Expr.itemSubexprs, List.forall_mem_append] at hops
    rw [Term.codes, Expression.freeAll, List.filter_append, filter_free_code hitem hops.1,
      filter_freeAll_codes hrest hops.2, Expr.itemsExposed, List.map_append]

theorem filter_freeAll_stmtCodes {trail : Trail} {index : Nat} {clauses : List Clause}
    {stmts : List Stmt} (h : YieldsClauses oneSubject shadowing trail index clauses stmts)
    (hops : ∀ s ∈ Expr.clauseSubexprs clauses, s.OperatorJoins) :
    (Statement.freeAll (Stmt.codes stmts)).filter (· ∉ Name.subject :: globals) =
      (Expr.clausesExposed clauses).map Name.identifier := by
  cases h with
  | failing trail index => decide +kernel
  | catchAll rest lowered total hbody =>
    rw [isCatchAll_lower lowered] at total
    rw [Expr.clauseSubexprs, List.forall_mem_append] at hops
    simp only [Expr.clausesExposed, total, if_true]
    exact filter_clauseBody lowered (isValid_of_mem_exposed hbody) (filter_free_code hbody hops.1)
  | guarded lowered partial_checks hbody hrest =>
    have hcondition : (Check.condition .name ‹Lowering String›.checks).free.filter
        (· ∉ Name.subject :: globals) = [] := by
      rw [List.filter_eq_nil_iff]
      intro x hx
      rcases free_condition_lower lowered x hx with rfl | rfl <;> simp [globals]
    rw [isCatchAll_lower lowered] at partial_checks
    simp only [Expr.clauseSubexprs, partial_checks, Bool.false_eq_true, if_false,
      List.forall_mem_append] at hops
    simp only [Stmt.codes, Stmt.code, Statement.freeAll, Statement.free, Expr.clausesExposed,
      partial_checks, Bool.false_eq_true, if_false]
    rw [List.filter_append, List.filter_append, hcondition, List.nil_append, filter_comm,
      filter_clauseBody lowered (isValid_of_mem_exposed hbody) (filter_free_code hbody hops.1),
      filter_freeAll_stmtCodes hrest hops.2, List.map_append]
    congr 1
    refine filter_identifiers fun name hname => ?_
    simp [mem_declared_clauseBody lowered _ (isValid_of_mem_exposed hbody name hname)]

end

/-- All parts of an expression that has a script have scripts of their own. -/
theorem exists_yields_of_mem {subjects : Trail → String} {trail : Trail} {e : Expr} {term : Term}
    (h : Yields subjects shadowing trail e term) {s : Expr} (hs : s ∈ e.subexprs) :
    ∃ place part, Yields subjects shadowing place s part := by
  obtain ⟨place, part, hpart, -⟩ := exists_part_of_mem h hs
  exact ⟨place, part, hpart⟩

end Emitted

/-- The free identifiers of a program that stand for names of its tree, as they occur. -/
def userFree (code : Expression) : List String := code.free.filter (· ∉ globals)

/-- Where all operators join their operands, the free identifiers of a script are those of the
exposed names, and so they are those of the free names of the tree just if every free name keeps an
exposed occurrence. All occurrences keep their scope, in the tree and in all its parts, just if
nothing is captured. The names of the clause that ends a match are declared beside the subject and
the other clauses, not in a block of their own, and a function on the left of an operator is not put
in parentheses: hence the captures. -/
theorem free_names_kept_iff {shadowing : Bool} {trail : Trail} {e : Expr} {term : Term}
    (h : (ofExpr shadowing trail e).result = .ok term)
    (hops : ∀ s ∈ e.subexprs, s.OperatorJoins) :
    term.IsRead ∧
    userFree term.code = e.exposed.map Name.identifier ∧
    e.exposed.Sublist e.free ∧
    ((∀ x, x ∈ userFree term.code ↔ ∃ name ∈ e.free, Name.identifier name = x) ↔
      ∀ name ∈ e.free, name ∈ e.exposed) ∧
    ((∀ s ∈ e.subexprs, ∀ place part, (ofExpr shadowing place s).result = .ok part →
        userFree part.code = s.free.map Name.identifier) ↔
      e.Uncaptured) := by
  have hyields : Yields oneSubject shadowing trail e term := yields_iff.mpr h
  have hfree : userFree term.code = e.exposed.map Name.identifier := filter_free_code hyields hops
  have hpartOps : ∀ s ∈ e.subexprs, ∀ t ∈ s.subexprs, t.OperatorJoins :=
    fun s hs t ht => hops t (Expr.mem_subexprs_trans hs ht)
  refine ⟨isRead_of_yields hyields fun s hs => (hops s hs).fits, hfree, e.exposed_sublist, ?_, ?_⟩
  · rw [hfree]
    constructor
    · intro hkept name hname
      have hmem := (hkept (Name.identifier name)).mpr ⟨name, hname, rfl⟩
      exact (identifier_mem_map (isValid_of_mem_exposed hyields)
        (isValid_of_mem_free hyields name hname)).mp hmem
    · intro hkept x
      rw [List.mem_map]
      constructor
      · rintro ⟨name, hname, he⟩
        exact ⟨name, e.exposed_sublist.subset hname, he⟩
      · rintro ⟨name, hname, he⟩
        exact ⟨name, hkept name hname, he⟩
  · rw [← Expr.exposed_eq_iff]
    constructor
    · intro hkept s hs
      obtain ⟨place, part, hpart⟩ := exists_yields_of_mem hyields hs
      have hlists := hkept s hs place part (yields_iff.mp hpart)
      have hfreePart : userFree part.code = s.exposed.map Name.identifier :=
        filter_free_code hpart (hpartOps s hs)
      rw [hfreePart] at hlists
      refine s.exposed_sublist.eq_of_length ?_
      simpa using congrArg List.length hlists
    · intro hkept s hs place part hpart
      rw [← hkept s hs]
      exact filter_free_code (yields_iff.mpr hpart) (hpartOps s hs)

/-- `match x with x -> x + y` -/
def capturing : Expr :=
  .cases (.var (Text.ofString "x"))
    [⟨.var (Text.ofString "x"),
      .binop (Text.ofString "+") (.var (Text.ofString "x")) (.var (Text.ofString "y"))⟩]

/-- The variable that is matched is free in the tree, but not in the script. -/
theorem free_names_kept_iff_capturing :
    ∃ term, (ofExpr false (.root "expr") capturing).result = .ok term ∧
      (∀ s ∈ capturing.subexprs, s.OperatorJoins) ∧
      term.code.written = "(() => \x7b\nlet $ = x;\nlet x = $;\nreturn x + y;\n\x7d)()" ∧
      capturing.free = [Text.ofString "x", Text.ofString "y"] ∧ userFree term.code = ["y"] ∧
      ¬ (∀ x, x ∈ userFree term.code ↔ ∃ name ∈ capturing.free, Name.identifier name = x) := by
  obtain ⟨term, hterm⟩ :
      ∃ term, (ofExpr false (.root "expr") capturing).result = .ok term := ⟨_, rfl⟩
  have hops : ∀ s ∈ capturing.subexprs, s.OperatorJoins := by
    have hplus : (Text.ofString "+").shown ∈ Js.joiners := by decide +kernel
    simpa [capturing, Expr.subexprs, Expr.clauseSubexprs, Expr.OperatorJoins] using hplus
  obtain ⟨-, hfree, -, hkept, -⟩ := free_names_kept_iff hterm hops
  have hexposed : capturing.exposed = [Text.ofString "y"] := by decide +kernel
  have hnames : capturing.free = [Text.ofString "x", Text.ofString "y"] := by decide +kernel
  refine ⟨term, hterm, hops, ?_, hnames, by rw [hfree, hexposed]; decide +kernel, ?_⟩
  · cases hterm
    decide +kernel
  · rw [hkept, hexposed, hnames]
    decide +kernel

end Script
end CaseScript
