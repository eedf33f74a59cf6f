import CaseScript.Proofs.Script.FreeNames

/-!
# Scopes of scripts

What a script declares together: the subject of a match beside the names of the clause that ends
it, the names of any other clause in the block of its own, a local definition alone, and the
parameters of a function. No two identifiers of one scope are the same, so a script is not refused
for a second declaration, unless a comma in a value or a subject declares more.
-/

namespace CaseScript

/-- What stands behind commas in the value of a local definition or in the subject of a match
declares no name that is declared beside it. -/
def Expr.DeclaresOnce : Expr → Prop
  | letIn name value _ => (name :: value.later).Nodup
  | cases subject clauses =>
    subject.later.Nodup ∧ ∀ name ∈ subject.later, name ∉ Clause.finalNames clauses
  | _ => True

theorem Expr.later_eq_nil {e : Expr} (h : ∀ s ∈ e.subexprs, s.OperatorUnites) : e.later = [] := by
  cases e with
  | binop op left right =>
    rw [subexprs, List.forall_mem_cons, List.forall_mem_append] at h
    rw [later, later_eq_nil h.2.1, later_eq_nil h.2.2, if_neg h.1]
    rfl
  | lambda params body =>
    rw [subexprs, List.forall_mem_cons] at h
    rw [later]
    exact later_eq_nil h.2
  | _ => rfl

namespace Script

open Js

variable {subjects : Trail → String} {shadowing : Bool}

/-- Names that are told apart are also told apart where some of them are reserved words. -/
theorem nodup_identifiers {names : List Text} (hnames : ∀ name ∈ names, Name.isValid name = true)
    (h : names.Nodup) : (names.map Name.identifier).Nodup := by
  unfold List.Nodup
  rw [List.pairwise_map]
  apply h.imp_of_mem
  intro name other hname hother hne heq
  exact hne (Name.identifier_injective (hnames name hname) (hnames other hother) heq)

theorem nodup_identifiers_iff {names : List Text}
    (hnames : ∀ name ∈ names, Name.isValid name = true) :
    (names.map Name.identifier).Nodup ↔ names.Nodup :=
  ⟨fun h => (List.pairwise_map.mp h).imp fun hne he => hne (congrArg _ he),
    nodup_identifiers hnames⟩

theorem scopes_joined (left : Expression) (op : String) (right : Expression) :
    (left.joined op right).scopes =
      left.scopes ++ ((left.param? op).toList.map fun param => [param]) ++ right.scopes := by
  rw [gathers_scopes.joined]
  cases left.param? op <;> rfl

theorem overlooksNames_scopes : OverlooksNames Expression.scopes where
  literal _ := rfl
  name _ := rfl
  member _ _ := rfl
  item _ _ := rfl
  call callee arg := by simp [Expression.scopes, Expression.scopesAll]
  operation _ _ _ := rfl

/-- The references of a clause declare nothing, so that its scopes are those of its result. -/
theorem scopesAll_clauseBody (lowering : Lowering String) (bodyTerm : Term) :
    Statement.scopesAll (Stmt.codes (declarations lowering ++ [.give bodyTerm])) =
      bodyTerm.code.scopes := by
  unfold declarations
  induction lowering.bindings with
  | nil => simp [Stmt.codes, Stmt.code, Statement.scopesAll, Statement.scopes]
  | cons binding rest ih =>
    rw [List.map_cons, List.cons_append, Stmt.codes, Statement.scopesAll, Stmt.code,
      Statement.scopes, Term.code, overlooksNames_scopes.ref, List.nil_append, ih]

/-- Whether or not bindings may shadow each other, a clause declares each of its names once. -/
theorem nodup_declared_clauseBody {place : Trail} {subject : String} {p : Pattern}
    {lowering : Lowering String} (h : p.lower shadowing place subject = .ok lowering)
    (bodyTerm : Term) :
    (declared (Stmt.codes (declarations lowering ++ [.give bodyTerm]))).Nodup := by
  rw [declared_clauseBody, ← Function.comp_def Name.identifier, ← List.map_map]
  refine nodup_identifiers ?_ (p.nodup_names_of_lower h)
  intro name hname
  obtain ⟨binding, hbinding, rfl⟩ := List.mem_map.mp hname
  exact isValid_of_mem_lower h hbinding

theorem identifies_of_mem_declared_clauseBody {place : Trail} {subject : String} {p : Pattern}
    {lowering : Lowering String} (h : p.lower shadowing place subject = .ok lowering)
    {bodyTerm : Term} {x : String}
    (hx : x ∈ declared (Stmt.codes (declarations lowering ++ [.give bodyTerm]))) :
    Name.Identifies x := by
  rw [declared_clauseBody] at hx
  obtain ⟨binding, hbinding, rfl⟩ := List.mem_map.mp hx
  exact ⟨binding.name, isValid_of_mem_lower h hbinding, rfl⟩

/-- In the block of a match, only the clause that ends it declares names. -/
theorem declared_clauses {trail : Trail} {index : Nat} {clauses : List Clause} {stmts : List Stmt}
    (h : YieldsClauses subjects shadowing trail index clauses stmts) :
    (declared (Stmt.codes stmts)).Nodup ∧
      ∀ x ∈ declared (Stmt.codes stmts), Name.Identifies x := by
  induction clauses generalizing index stmts with
  | nil =>
    cases h
    exact ⟨List.nodup_nil, fun x hx => absurd hx List.not_mem_nil⟩
  | cons clause rest ih =>
    cases h with
    | catchAll _ lowered total hbody =>
      constructor
      · exact nodup_declared_clauseBody lowered _
      · intro x hx
        exact identifies_of_mem_declared_clauseBody lowered hx
    | guarded lowered partial_checks hbody hrest =>
      simp only [Stmt.codes, Stmt.code, declared]
      exact ih hrest

/-! ## No scope declares an identifier twice -/

/-- The block of a local definition. -/
theorem nodup_declaration_iff {name : Text} (hname : Name.isValid name = true) {trail : Trail}
    {value : Expr} {valueTerm : Term} (h : Yields subjects shadowing trail value valueTerm) :
    (Name.identifier name :: valueTerm.code.later).Nodup ↔ (name :: value.later).Nodup := by
  rw [later_code h, ← List.map_cons]
  exact nodup_identifiers_iff (List.forall_mem_cons.mpr ⟨hname, isValid_of_mem_later h⟩)

/-- The block of a match: only its clauses and what stands behind commas can meet. -/
theorem nodup_match_iff {trail place : Trail} {index : Nat} {subject : Expr} {subjectTerm : Term}
    {clauses : List Clause} {stmts : List Stmt}
    (h : Yields subjects shadowing trail subject subjectTerm)
    (hclauses : YieldsClauses subjects shadowing place index clauses stmts) :
    (Name.subject :: (subjectTerm.code.later ++ declared (Stmt.codes stmts))).Nodup ↔
      subject.later.Nodup ∧ ∀ name ∈ subject.later, name ∉ Clause.finalNames clauses := by
  obtain ⟨hnodup, hnames⟩ := declared_clauses hclauses
  have hsubject : Name.subject ∉ subjectTerm.code.later ++ declared (Stmt.codes stmts) := by
    intro hmem
    rcases List.mem_append.mp hmem with hmem | hmem
    · exact (identifies_of_mem_later h _ hmem).ne_subject rfl
    · exact (hnames _ hmem).ne_subject rfl
  have hvalid := isValid_of_mem_later h
  rw [List.nodup_cons, and_iff_right hsubject, List.nodup_append, and_iff_right hnodup,
    later_code h, nodup_identifiers_iff hvalid]
  refine and_congr_right fun _ => ?_
  constructor
  · intro hdisjoint name hname hfinal
    have hdeclared := (mem_declared_clauses hclauses (hvalid name hname)).mpr hfinal
    exact hdisjoint _ (List.mem_map_of_mem hname) _ hdeclared rfl
  · rintro hnone x hlater _ hdeclared rfl
    obtain ⟨name, hname, rfl⟩ := List.mem_map.mp hlater
    exact hnone name hname ((mem_declared_clauses hclauses (hvalid name hname)).mp hdeclared)

mutual

theorem nodup_scopes_iff {trail : Trail} {e : Expr} {term : Term}
    (h : Yields oneSubject shadowing trail e term) :
    (∀ scope ∈ term.code.scopes, scope.Nodup) ↔ ∀ s ∈ e.subexprs, s.DeclaresOnce := by
  cases h with
  | literal trail value => simp [Term.code, Expression.scopes, Expr.subexprs, Expr.DeclaresOnce]
  | var trail valid => simp [Term.code, Expression.scopes, Expr.subexprs, Expr.DeclaresOnce]
  | list hitems =>
    simp only [Expr.subexprs, List.forall_mem_cons, Expr.DeclaresOnce, true_and]
    exact nodup_scopes_items_iff hitems
  | binop hleft valid hright =>
    rename_i op left right leftTerm rightTerm
    have hparam : ∀ scope ∈ (leftTerm.code.param? op.shown).toList.map fun param => [param],
        scope.Nodup := by
      simp
    rw [Term.code, scopes_joined, List.forall_mem_append, List.forall_mem_append,
      and_iff_left hparam, nodup_scopes_iff hleft, nodup_scopes_iff hright]
    simp only [Expr.subexprs, List.forall_mem_cons, Expr.DeclaresOnce, true_and,
      List.forall_mem_append]
  | letIn valid hvalue hbody =>
    simp only [Term.code, Stmt.codes, Stmt.code, Expression.scopes, Expression.scopesAll,
      Statement.scopesAll, Statement.scopes, declared, List.append_nil, List.forall_mem_cons,
      List.forall_mem_append, Expr.subexprs]
    rw [nodup_declaration_iff valid hvalue, nodup_scopes_iff hvalue, nodup_scopes_iff hbody]
    rfl
  | apply hfunction hargs =>
    rw [Term.code, Expression.scopes, scopes_callee, List.forall_mem_append,
      nodup_scopes_iff hfunction, nodup_scopes_items_iff hargs]
    simp only [Expr.subexprs, List.forall_mem_cons, Expr.DeclaresOnce, true_and,
      List.forall_mem_append]
  | lambda valid distinct hbody =>
    have hparams := nodup_identifiers valid distinct
    rw [Term.code, gathers_scopes.overFirst fun e => gathers_scopes.arrow _ e,
      List.singleton_append, List.forall_mem_cons, and_iff_right hparams, nodup_scopes_iff hbody]
    simp only [Expr.subexprs, List.forall_mem_cons, Expr.DeclaresOnce, true_and]
  | cases hsubject hclauses =>
    simp only [Term.code, Stmt.codes, Stmt.code, Expression.scopes, Expression.scopesAll,
      Statement.scopesAll, Statement.scopes, declared, List.append_nil, List.forall_mem_cons,
      List.forall_mem_append, Expr.subexprs]
    rw [nodup_match_iff hsubject hclauses, nodup_scopes_iff hsubject,
      nodup_scopes_clauses_iff hclauses]
    rfl

theorem nodup_scopes_items_iff {trail : Trail} {index : Nat} {items : List Expr}
    {terms : List Term} (h : YieldsItems oneSubject shadowing trail index items terms) :
    (∀ scope ∈ Expression.scopesAll (Term.codes terms), scope.Nodup) ↔
      ∀ s ∈ Expr.itemSubexprs items, s.DeclaresOnce := by
  cases h with
  | nil trail index => simp [Term.codes, Expression.scopesAll, Expr.itemSubexprs]
  | cons hitem hrest =>
    rw [Term.codes, Expression.scopesAll, List.forall_mem_append, nodup_scopes_iff hitem,
      nodup_scopes_items_iff hrest, Expr.itemSubexprs, List.forall_mem_append]

theorem nodup_scopes_clauses_iff {trail : Trail} {index : Nat} {clauses : List Clause}
    {stmts : List Stmt} (h : YieldsClauses oneSubject shadowing trail index clauses stmts) :
    (∀ scope ∈ Statement.scopesAll (Stmt.codes stmts), scope.Nodup) ↔
      ∀ s ∈ Expr.clauseSubexprs clauses, s.DeclaresOnce := by
  cases h with
  | failing =>
    simp [Stmt.codes, Stmt.code, Statement.scopesAll, Statement.scopes, Expression.scopes,
      Expression.scopesAll, Expr.clauseSubexprs]
  | catchAll rest lowered total hbody =>
    rw [isCatchAll_lower lowered] at total
    rw [scopesAll_clauseBody, nodup_scopes_iff hbody, Expr.clauseSubexprs, if_pos total,
      List.append_nil]
  | guarded lowered partial_checks hbody hrest =>
    rw [isCatchAll_lower lowered] at partial_checks
    have hclause := nodup_declared_clauseBody lowered ‹Term›
    rw [Stmt.codes, Stmt.code, Statement.scopesAll, Statement.scopes,
      overlooksNames_scopes.condition, List.nil_append, scopesAll_clauseBody, List.cons_append,
      List.forall_mem_cons, and_iff_right hclause, List.forall_mem_append, nodup_scopes_iff hbody,
      nodup_scopes_clauses_iff hrest, Expr.clauseSubexprs, if_neg (by simp [partial_checks]),
      List.forall_mem_append]

end

/-- `let x = (1 , x) in x` declares `x` twice. -/
example :
    ∃ term, ((Expr.letIn (Text.ofString "x")
        (.binop (Text.ofString ",") (.literal (.int 1)) (.var (Text.ofString "x")))
        (.var (Text.ofString "x"))).emission {}).result = .ok term ∧
      term.code.written = "(() => \x7b\nlet x = 1 , x;\nreturn x;\n\x7d)()" ∧
      term.code.scopes = [["x", "x"]] :=
  ⟨_, rfl, by decide +kernel, by decide +kernel⟩

end Script
end CaseScript
