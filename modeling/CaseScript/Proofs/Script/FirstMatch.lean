import CaseScript.Proofs.Expr.FreeNames
import CaseScript.Proofs.Name.Identifier
import CaseScript.Proofs.Pattern.Exactness
import CaseScript.Proofs.Script.FlatText

/-!
# The clause that a match runs

The statements after the one that holds the subject give back the body of the first clause whose
pattern matches, with the names of that pattern declared, and throw if there is no such clause. The
clauses before it leave the scope as it is, since the block of a clause is entered only to return.
-/

namespace CaseScript

open Js

/-- The identifiers that a pattern declares in a value that it matches, with their values. -/
def Pattern.locals (p : Pattern) (v : Value) : List (String × Value) :=
  (p.assigned v).map fun entry => (Name.identifier entry.1, entry.2)

namespace Script

/-- The error that is thrown if no clause matches. -/
def noMatch : Expression :=
  .construct (.name "Error") [.literal (.string (Text.ofString failureMessage))]

/-! ## The body of a clause -/

theorem runAll_declarations {bindings : List (Binding String)} {values : List (Text × Value)}
    {v : Value} (hvalid : ∀ binding ∈ bindings, Name.isValid binding.name = true)
    (hvalues : ∀ scope : Scope, scope Name.subject = some v →
      Lowering.entries (fun binding => (binding.ref.code .name).eval scope) bindings =
        values.map (Prod.map id some))
    {scope : Scope} (hv : scope Name.subject = some v) (before : List (String × Value))
    (bodyTerm : Term) :
    Statement.runAll scope before (Stmt.codes
        (bindings.map (fun binding => .declare (Name.identifier binding.name) (.ref binding.ref)) ++
          [.give bodyTerm])) =
      .returned (scope.setAll (values.map fun entry => (Name.identifier entry.1, entry.2)))
        (before ++ values.map fun entry => (Name.identifier entry.1, entry.2)) bodyTerm.code := by
  induction bindings generalizing values scope before with
  | nil =>
    have hnil : values = [] := by simpa [Lowering.entries] using hvalues scope hv
    subst hnil
    simp [Stmt.codes, Stmt.code, Statement.runAll, Statement.run, Scope.setAll]
  | cons binding rest ih =>
    cases values with
    | nil => simpa [Lowering.entries] using hvalues scope hv
    | cons entry values =>
      obtain ⟨name, w⟩ := entry
      have hfirst : binding.name = name ∧ (binding.ref.code .name).eval scope = some w := by
        have hcons := hvalues scope hv
        simp only [Lowering.entries, List.map_cons, List.cons.injEq] at hcons
        exact Prod.mk.inj hcons.1
      obtain ⟨rfl, hw⟩ := hfirst
      have hkept : (scope.set (Name.identifier binding.name) w) Name.subject = some v := by
        have hne := Name.identifier_ne_subject (hvalid binding List.mem_cons_self)
        rw [Scope.set_of_ne scope (Ne.symm hne), hv]
      have hrest := ih (fun other hother => hvalid other (List.mem_cons_of_mem _ hother))
        (fun scope hv => by
          have hcons := hvalues scope hv
          simp only [Lowering.entries, List.map_cons, List.cons.injEq] at hcons
          exact hcons.2)
        hkept (before ++ [(Name.identifier binding.name, w)])
      have hstep : (Expression.eval scope (Term.code (.ref binding.ref))) = some w := hw
      rw [List.map_cons, List.cons_append, Stmt.codes, Stmt.code, Statement.runAll, Statement.run,
        hstep]
      simpa [Scope.setAll] using hrest

section Clause

variable {shadowing : Bool} {place : Trail} {p : Pattern} {lowering : Lowering String}
  {scope : Scope} {v : Value}

/-- The body of a clause that matches declares the names of the pattern and gives back its value. -/
theorem runAll_clauseBody (h : p.lower shadowing place Name.subject = .ok lowering)
    (hv : scope Name.subject = some v) (hp : p.Matches v) (bodyTerm : Term) :
    Statement.runAll scope [] (Stmt.codes (declarations lowering ++ [.give bodyTerm])) =
      .returned (scope.setAll (p.locals v)) (p.locals v) bodyTerm.code := by
  have hvalues : ∀ scope : Scope, scope Name.subject = some v →
      Lowering.entries (fun binding => (binding.ref.code .name).eval scope) lowering.bindings =
        (p.assigned v).map (Prod.map id some) := by
    intro scope hv
    have hsubject : (Expression.name Name.subject).eval scope = some v := hv
    exact entries_lower h hsubject hp
  exact runAll_declarations (fun _ hb => isValid_of_mem_lower h hb) hvalues hv [] bodyTerm

/-- No identifier is declared twice. -/
theorem nodup_locals (h : p.lower shadowing place Name.subject = .ok lowering)
    (hp : p.Matches v) : ((p.locals v).map Prod.fst).Nodup := by
  have hvalid : ∀ entry ∈ p.assigned v, Name.isValid entry.1 = true := by
    intro entry hentry
    have hname : entry.1 ∈ lowering.bindings.map (·.name) :=
      (mem_names_lower h).mpr ((Pattern.mem_names_assigned hp).mp (List.mem_map_of_mem hentry))
    obtain ⟨binding, hb, he⟩ := List.mem_map.mp hname
    exact he ▸ isValid_of_mem_lower h hb
  have hnodup := p.nodup_names_assigned v
  rw [Pattern.locals, List.map_map, List.Nodup, List.pairwise_map]
  rw [List.Nodup, List.pairwise_map] at hnodup
  refine hnodup.imp_of_mem fun hfirst hsecond hne he => hne ?_
  exact Name.identifier_injective (hvalid _ hfirst) (hvalid _ hsecond) he

/-- The condition of a clause never throws, and holds just if the value matches. -/
theorem eval_condition (h : p.lower shadowing place Name.subject = .ok lowering)
    (hArray : scope "Array" = some .arrayClass) (hv : scope Name.subject = some v) :
    ∃ w, (Check.condition .name lowering.checks).eval scope = some w ∧
      (w.truthy = true ↔ p.Matches v) := by
  have hsubject : (Expression.name Name.subject).eval scope = some v := hv
  obtain ⟨b, hb, hiff⟩ := allHold_lower h hArray hsubject
  rw [← truthy_conjunction] at hb
  obtain ⟨w, hw, hwb⟩ := Option.map_eq_some_iff.mp hb
  exact ⟨w, hw, by rw [hwb]; exact hiff⟩

theorem run_guarded_of_not_matches (h : p.lower shadowing place Name.subject = .ok lowering)
    (hArray : scope "Array" = some .arrayClass) (hv : scope Name.subject = some v)
    (hp : ¬ p.Matches v) (body : List Stmt) (locals : List (String × Value)) :
    (Stmt.guarded lowering.checks body).code.run scope locals = .completed scope locals := by
  obtain ⟨w, hw, hiff⟩ := eval_condition h hArray hv
  have hfalse : w.truthy = false := by
    rw [← Bool.not_eq_true, hiff]
    exact hp
  rw [Stmt.code, Statement.run, hw]
  simp [hfalse]

/-- Inside its own block, a clause sees all that it saw before the block, and its own names. -/
theorem run_guarded_of_matches (h : p.lower shadowing place Name.subject = .ok lowering)
    (hArray : scope "Array" = some .arrayClass) (hv : scope Name.subject = some v)
    (hp : p.Matches v) (bodyTerm : Term) (locals : List (String × Value)) :
    (Stmt.guarded lowering.checks (declarations lowering ++ [.give bodyTerm])).code.run scope
        locals =
      .returned (scope.setAll (p.locals v)) (p.locals v) bodyTerm.code := by
  obtain ⟨w, hw, hiff⟩ := eval_condition h hArray hv
  have htrue : w.truthy = true := hiff.mpr hp
  have hkept :
      Name.subject ∉ declared (Stmt.codes (declarations lowering ++ [.give bodyTerm])) := by
    rw [declared_clauseBody]
    intro hmem
    obtain ⟨binding, hb, he⟩ := List.mem_map.mp hmem
    exact Name.identifier_ne_subject (isValid_of_mem_lower h hb) he
  have hall : ∀ name ∈ declared (Stmt.codes (declarations lowering ++ [.give bodyTerm])),
      name ∈ (p.locals v).map Prod.fst := by
    intro name hmem
    rw [declared_clauseBody] at hmem
    obtain ⟨binding, hb, rfl⟩ := List.mem_map.mp hmem
    have hname : binding.name ∈ (p.assigned v).map Prod.fst :=
      (Pattern.mem_names_assigned hp).mpr ((mem_names_lower h).mp (List.mem_map_of_mem hb))
    obtain ⟨entry, hentry, he⟩ := List.mem_map.mp hname
    rw [Pattern.locals, List.map_map]
    exact List.mem_map.mpr ⟨entry, hentry, by simp [he]⟩
  have hinside : (scope.enter (declared (Stmt.codes (declarations lowering ++ [.give bodyTerm]))))
      Name.subject = some v := by
    rw [Scope.enter_of_notMem scope hkept, hv]
  rw [Stmt.code, Statement.run, hw]
  simp only [htrue, if_true]
  rw [runAll_clauseBody h hinside hp, Scope.setAll_enter scope hall]
  rfl

end Clause

/-! ## The clauses of a match -/

section Clauses

variable {shadowing : Bool} {trail : Trail} {index : Nat} {clauses : List Clause}
  {stmts : List Stmt} {scope : Scope} {v : Value}

/-- Clauses that do not match are passed by, up to the first one that does. -/
theorem runAll_of_firstMatch (hArray : scope "Array" = some .arrayClass)
    (hv : scope Name.subject = some v) {before after : List Clause} {clause : Clause}
    (h : YieldsClauses oneSubject shadowing trail index (before ++ clause :: after) stmts)
    (hbefore : ∀ earlier ∈ before, ¬ earlier.pattern.Matches v) (hp : clause.pattern.Matches v) :
    ∃ bodyTerm,
      Yields oneSubject shadowing ((Decision.clause trail (index + before.length)).field "body")
        clause.body bodyTerm ∧
      ((clause.pattern.locals v).map Prod.fst).Nodup ∧
      Statement.runAll scope [] (Stmt.codes stmts) =
        .returned (scope.setAll (clause.pattern.locals v)) (clause.pattern.locals v)
          bodyTerm.code := by
  induction before generalizing index stmts with
  | nil =>
    cases h with
    | catchAll _ lowered total body_yields =>
      exact ⟨_, body_yields, nodup_locals lowered hp, runAll_clauseBody lowered hv hp _⟩
    | guarded lowered partial_checks body_yields rest_yields =>
      refine ⟨_, body_yields, nodup_locals lowered hp, ?_⟩
      rw [Stmt.codes, Statement.runAll, run_guarded_of_matches lowered hArray hv hp]
  | cons earlier before ih =>
    have hfails : ¬ earlier.pattern.Matches v := hbefore earlier List.mem_cons_self
    cases h with
    | catchAll _ lowered total body_yields =>
      rw [isCatchAll_lower lowered] at total
      exact absurd (Pattern.matches_of_catchesAll total v) hfails
    | guarded lowered partial_checks body_yields rest_yields =>
      obtain ⟨bodyTerm, hbody, hnodup, hrun⟩ :=
        ih rest_yields fun other hother => hbefore other (List.mem_cons_of_mem _ hother)
      refine ⟨bodyTerm, ?_, hnodup, ?_⟩
      · rw [List.length_cons, show index + (before.length + 1) = index + 1 + before.length by omega]
        exact hbody
      · rw [Stmt.codes, Statement.runAll, run_guarded_of_not_matches lowered hArray hv hfails]
        exact hrun

theorem runAll_of_noMatch (hArray : scope "Array" = some .arrayClass)
    (hv : scope Name.subject = some v)
    (h : YieldsClauses oneSubject shadowing trail index clauses stmts)
    (hnone : ∀ clause ∈ clauses, ¬ clause.pattern.Matches v) :
    Statement.runAll scope [] (Stmt.codes stmts) = .thrown noMatch := by
  induction clauses generalizing index stmts with
  | nil =>
    cases h
    rfl
  | cons clause rest ih =>
    have hfails : ¬ clause.pattern.Matches v := hnone clause List.mem_cons_self
    cases h with
    | catchAll _ lowered total body_yields =>
      rw [isCatchAll_lower lowered] at total
      exact absurd (Pattern.matches_of_catchesAll total v) hfails
    | guarded lowered partial_checks body_yields rest_yields =>
      rw [Stmt.codes, Statement.runAll, run_guarded_of_not_matches lowered hArray hv hfails]
      exact ih rest_yields fun other hother => hnone other (List.mem_cons_of_mem _ hother)

/-- A clause that matches is preceded by a first one that does. -/
theorem exists_firstMatch (h : ∃ clause ∈ clauses, clause.pattern.Matches v) :
    ∃ before clause after, clauses = before ++ clause :: after ∧
      (∀ earlier ∈ before, ¬ earlier.pattern.Matches v) ∧ clause.pattern.Matches v := by
  induction clauses with
  | nil => simp at h
  | cons first rest ih =>
    by_cases hfirst : first.pattern.Matches v
    · exact ⟨[], first, rest, rfl, by simp, hfirst⟩
    · obtain ⟨clause, hmem, hp⟩ := h
      rcases List.mem_cons.mp hmem with rfl | hrest
      · exact absurd hp hfirst
      · obtain ⟨before, clause, after, rfl, hbefore, hp⟩ := ih ⟨clause, hrest, hp⟩
        refine ⟨first :: before, clause, after, rfl, ?_, hp⟩
        intro earlier hmem
        rcases List.mem_cons.mp hmem with rfl | hmem
        · exact hfirst
        · exact hbefore earlier hmem

theorem runAll_eq_thrown_iff (hArray : scope "Array" = some .arrayClass)
    (hv : scope Name.subject = some v)
    (h : YieldsClauses oneSubject shadowing trail index clauses stmts) :
    Statement.runAll scope [] (Stmt.codes stmts) = .thrown noMatch ↔
      ∀ clause ∈ clauses, ¬ clause.pattern.Matches v := by
  refine ⟨fun hthrown clause hmem hp => ?_, runAll_of_noMatch hArray hv h⟩
  obtain ⟨before, first, after, rfl, hbefore, hfirst⟩ := exists_firstMatch ⟨clause, hmem, hp⟩
  obtain ⟨bodyTerm, _, _, hreturned⟩ := runAll_of_firstMatch hArray hv h hbefore hfirst
  rw [hreturned] at hthrown
  cases hthrown

theorem throw_mem_clauseBody (lowering : Lowering String) (bodyTerm : Term) (error : Expression) :
    .throw error ∉ Stmt.codes (declarations lowering ++ [.give bodyTerm]) := by
  unfold declarations
  induction lowering.bindings with
  | nil => simp [Stmt.codes, Stmt.code]
  | cons binding rest ih => simpa [Stmt.codes, Stmt.code] using ih

/-- A block ends with a failure unless a clause matches by its form alone. -/
theorem throw_mem_iff (h : YieldsClauses oneSubject shadowing trail index clauses stmts) :
    .throw noMatch ∈ Stmt.codes stmts ↔ ∀ clause ∈ clauses, clause.pattern.catchesAll = false := by
  induction clauses generalizing index stmts with
  | nil =>
    cases h
    simp [Stmt.codes, Stmt.code, noMatch]
  | cons clause rest ih =>
    cases h with
    | catchAll _ lowered total body_yields =>
      rw [isCatchAll_lower lowered] at total
      have habsent := throw_mem_clauseBody ‹_› ‹_› noMatch
      simp [habsent, total]
    | guarded lowered partial_checks body_yields rest_yields =>
      rw [isCatchAll_lower lowered] at partial_checks
      rw [Stmt.codes, List.mem_cons, ih rest_yields]
      simp [Stmt.code, partial_checks]

/-- What comes after the first clause that matches by its form alone adds no statement. -/
theorem yieldsClauses_reached (h : YieldsClauses oneSubject shadowing trail index clauses stmts) :
    YieldsClauses oneSubject shadowing trail index (reached clauses) stmts := by
  induction clauses generalizing index stmts with
  | nil => exact h
  | cons clause rest ih =>
    cases h with
    | catchAll _ lowered total body_yields =>
      have hcatches := (isCatchAll_lower lowered).symm.trans total
      simp only [reached, hcatches, if_true]
      exact .catchAll [] lowered total body_yields
    | guarded lowered partial_checks body_yields rest_yields =>
      have hchecks := (isCatchAll_lower lowered).symm.trans partial_checks
      simp only [reached, hchecks, Bool.false_eq_true, if_false]
      exact .guarded lowered partial_checks body_yields (ih rest_yields)

end Clauses

/-- A match runs the body of the first clause whose pattern matches the subject, in the scope around
it together with the names of that pattern alone, each of which has the part it stands for. It
throws just if there is no such clause. A `throw` is there at all unless a clause matches by its
form, and from the first such clause on nothing else is there. -/
theorem cases_runs_first_match {shadowing : Bool} {trail : Trail} {subject : Expr}
    {clauses : List Clause} {term : Term}
    (h : (ofExpr shadowing trail (.cases subject clauses)).result = .ok term) :
    ∃ subjectTerm stmts,
      term = .block (.declare Name.subject subjectTerm :: stmts) ∧
      (ofExpr shadowing (trail.field "subject") subject).result = .ok subjectTerm ∧
      term.doc.flatText = term.code.written ∧
      (∀ (scope : Scope) (v : Value), scope "Array" = some .arrayClass →
        scope Name.subject = some v →
        (∀ before clause after, clauses = before ++ clause :: after →
          (∀ earlier ∈ before, ¬ earlier.pattern.Matches v) → clause.pattern.Matches v →
          ∃ bodyTerm,
            (ofExpr shadowing ((Decision.clause trail before.length).field "body")
              clause.body).result = .ok bodyTerm ∧
            ((clause.pattern.locals v).map Prod.fst).Nodup ∧
            Statement.runAll scope [] (Stmt.codes stmts) =
              .returned (scope.setAll (clause.pattern.locals v)) (clause.pattern.locals v)
                bodyTerm.code) ∧
        (Statement.runAll scope [] (Stmt.codes stmts) = .thrown noMatch ↔
          ∀ clause ∈ clauses, ¬ clause.pattern.Matches v)) ∧
      (.throw noMatch ∈ Stmt.codes stmts ↔
        ∀ clause ∈ clauses, clause.pattern.catchesAll = false) ∧
      (ofClauses shadowing trail 0 (reached clauses)).result = .ok stmts := by
  have hyields : Yields oneSubject shadowing trail (.cases subject clauses) term := yields_iff.mpr h
  have htext := flatText_doc hyields
  cases hyields with
  | cases subject_yields clauses_yield =>
    refine ⟨_, _, rfl, yields_iff.mp subject_yields, htext, fun scope v hArray hv => ⟨?_, ?_⟩,
      throw_mem_iff clauses_yield, yieldsClauses_iff.mp (yieldsClauses_reached clauses_yield)⟩
    · rintro before clause after rfl hbefore hp
      obtain ⟨bodyTerm, hbody, hnodup, hrun⟩ :=
        runAll_of_firstMatch hArray hv clauses_yield hbefore hp
      rw [Nat.zero_add] at hbody
      exact ⟨bodyTerm, yields_iff.mp hbody, hnodup, hrun⟩
    · exact runAll_eq_thrown_iff hArray hv clauses_yield

example : (Statement.throw noMatch).written =
    "throw new Error(\"Non-exhaustive match clauses\");" := by decide +kernel

/-- `[] -> 0`, `[x, ...xs] -> x` and `_ -> 1`. -/
def headClauses : List Clause :=
  [⟨.list [], .literal (.int 0)⟩,
    ⟨.listTail [.var (Text.ofString "x")] (Text.ofString "xs"), .var (Text.ofString "x")⟩,
    ⟨.wildcard, .literal (.int 1)⟩]

/-- A scope in which the subject is `[7, true]`. -/
def headScope : Scope := fun name =>
  if name = "Array" then some .arrayClass
  else if name = "$" then some (.array [.int 7, .bool true])
  else none

theorem cases_runs_first_match_head :
    ∃ subjectTerm stmts,
      (ofExpr false (.root "expr") (.cases (.var (Text.ofString "xs")) headClauses)).result =
        .ok (.block (.declare "$" subjectTerm :: stmts)) ∧
      headScope "Array" = some .arrayClass ∧
      headScope "$" = some (.array [.int 7, .bool true]) ∧
      Statement.runAll headScope [] (Stmt.codes stmts) =
        .returned (headScope.setAll [("x", .int 7), ("xs", .array [.bool true])])
          [("x", .int 7), ("xs", .array [.bool true])] (.name "x") := by
  obtain ⟨term, hterm⟩ : ∃ term,
      (ofExpr false (.root "expr") (.cases (.var (Text.ofString "xs")) headClauses)).result =
        .ok term := ⟨_, rfl⟩
  obtain ⟨subjectTerm, stmts, rfl, -, -, hrun, -, -⟩ := cases_runs_first_match hterm
  have hempty : ∀ earlier ∈ [Clause.mk (.list []) (.literal (.int 0))],
      ¬ earlier.pattern.Matches (.array [.int 7, .bool true]) := by
    simp [Pattern.Matches]
  have hhead : (Pattern.listTail [.var (Text.ofString "x")] (Text.ofString "xs")).Matches
      (.array [.int 7, .bool true]) := by
    simp [Pattern.Matches, Pattern.MatchesItems]
  obtain ⟨bodyTerm, hbody, -, hreturned⟩ :=
    (hrun headScope _ rfl rfl).1 [⟨.list [], .literal (.int 0)⟩] _ _ rfl hempty hhead
  have hname : Term.name "x" = bodyTerm := Except.ok.inj hbody
  subst hname
  exact ⟨subjectTerm, stmts, hterm, rfl, rfl, hreturned⟩

end Script
end CaseScript
