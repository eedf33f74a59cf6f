import CaseScript.Proofs.Pattern.Exactness
import CaseScript.Proofs.Pattern.Recovery
import CaseScript.Proofs.Script.FlatText
import CaseScript.Proofs.Script.Reader

/-!
# Recovery of trees

Without shadowing no two trees have the same script. The script of a tree is a legible term, which
can be read back from its text at every width, and the form of a term tells which rule yielded it.
An operation is left out, as its operator may be any text; so are clauses that are never reached, as
a script does not hold them, and strings with surrogates of their own, as two of them may make up
one scalar value.
-/

namespace CaseScript

/-! ## Trees that can be recovered -/

mutual

/-- Are the strings of a pattern free of surrogates? -/
def Pattern.IsScalar : Pattern → Prop
  | .literal value => value.IsScalar
  | .var _ | .wildcard => True
  | .list items | .listTail items _ => Pattern.AllScalar items

def Pattern.AllScalar : List Pattern → Prop
  | [] => True
  | p :: rest => p.IsScalar ∧ Pattern.AllScalar rest

end

mutual

/-- Is a tree free of operations, of surrogates in its strings, and of clauses after one that every
value matches? -/
def Expr.Recoverable : Expr → Prop
  | .literal value => value.IsScalar
  | .var _ => True
  | .list items => Expr.AllRecoverable items
  | .binop _ _ _ => False
  | .letIn _ value body => value.Recoverable ∧ body.Recoverable
  | .apply function args => function.Recoverable ∧ Expr.AllRecoverable args
  | .lambda _ body => body.Recoverable
  | .cases subject clauses => subject.Recoverable ∧ Clause.AllRecoverable clauses

def Expr.AllRecoverable : List Expr → Prop
  | [] => True
  | item :: rest => item.Recoverable ∧ Expr.AllRecoverable rest

def Clause.AllRecoverable : List Clause → Prop
  | [] => True
  | ⟨pattern, body⟩ :: rest =>
    pattern.IsScalar ∧ body.Recoverable ∧ (pattern.catchesAll = true → rest = []) ∧
      Clause.AllRecoverable rest

end

/-! ## Scripts are legible -/

/-- A demand about a part of the subject of a match, where a check can be read back. -/
def Demand.Legible : Demand String → Prop
  | check c => c.Legible
  | bind b => b.ref.root = Name.subject

namespace Pattern

mutual

theorem legible_demands (ref : Ref String) (href : ref.root = Name.subject) (trail : Trail)
    {p : Pattern} (hp : p.IsScalar) : ∀ demand ∈ p.demands ref trail, demand.Legible := by
  intro demand h
  cases p with
  | literal value =>
    obtain rfl := List.mem_singleton.mp h
    exact ⟨href, hp⟩
  | var name =>
    obtain rfl := List.mem_singleton.mp h
    exact href
  | wildcard => cases h
  | list items =>
    rcases List.mem_cons.mp h with rfl | h
    · exact href
    · exact legible_itemDemands ref href (trail.field "items") 0 hp demand h
  | listTail items tail =>
    rcases List.mem_cons.mp h with rfl | h
    · exact href
    · rcases List.mem_append.mp h with h | h
      · exact legible_itemDemands ref href (trail.field "items") 0 hp demand h
      · obtain rfl := List.mem_singleton.mp h
        exact href

theorem legible_itemDemands (ref : Ref String) (href : ref.root = Name.subject) (trail : Trail)
    (index : Nat) {items : List Pattern} (hitems : AllScalar items) :
    ∀ demand ∈ itemDemands ref trail index items, demand.Legible := by
  intro demand h
  cases items with
  | nil => cases h
  | cons p rest =>
    rw [itemDemands, List.mem_append] at h
    rcases h with h | h
    · exact legible_demands (.item ref index) href (trail.item index) hitems.1 demand h
    · exact legible_itemDemands ref href trail (index + 1) hitems.2 demand h

end

end Pattern

namespace Script

theorem allLegible_append {first second : List Stmt} (h : Stmt.AllLegible first)
    (h' : Stmt.AllLegible second) : Stmt.AllLegible (first ++ second) := by
  induction first with
  | nil => exact h'
  | cons stmt rest ih => exact ⟨h.1, ih h.2⟩

section Clause

variable {trail : Trail} {pattern : Pattern} {lowering : Lowering String}

theorem legible_checks (hlower : pattern.lower false trail Name.subject = .ok lowering)
    (hscalar : pattern.IsScalar) : ∀ check ∈ lowering.checks, check.Legible := by
  intro check hcheck
  rw [(pattern.of_lower hlower (·.ref)).1] at hcheck
  have hdemand := Demand.mem_of_mem_checks hcheck
  exact Pattern.legible_demands (.subject Name.subject) rfl trail hscalar _ hdemand

theorem legible_clauseBody (hlower : pattern.lower false trail Name.subject = .ok lowering)
    (hscalar : pattern.IsScalar) {bodyTerm : Term} (hbody : bodyTerm.Legible) :
    Stmt.AllLegible (declarations lowering ++ [.give bodyTerm]) := by
  have hgive : Stmt.AllLegible [.give bodyTerm] := ⟨hbody, trivial⟩
  apply allLegible_append _ hgive
  have hbindings : ∀ binding ∈ lowering.bindings,
      Name.isValid binding.name = true ∧ binding.ref.root = Name.subject := by
    intro binding hbinding
    refine ⟨isValid_of_mem_lower hlower hbinding, ?_⟩
    rw [Pattern.bindings_lower hlower] at hbinding
    obtain ⟨demand, hdemand, hbind⟩ := List.mem_filterMap.mp hbinding
    have hlegible :=
      Pattern.legible_demands (.subject Name.subject) rfl trail hscalar demand hdemand
    cases demand with
    | check check => cases hbind
    | bind other =>
      cases hbind
      exact hlegible
  unfold declarations
  generalize lowering.bindings = bindings at hbindings
  induction bindings with
  | nil => trivial
  | cons binding rest ih =>
    rw [List.forall_mem_cons] at hbindings
    obtain ⟨⟨hvalid, hroot⟩, hrest⟩ := hbindings
    exact ⟨⟨.inr ⟨binding.name, hvalid, rfl⟩, hroot⟩, ih hrest⟩

end Clause

mutual

theorem legible_of_yields {trail : Trail} {e : Expr} {term : Term}
    (h : Yields oneSubject false trail e term) (he : e.Recoverable) : term.Legible := by
  cases h with
  | literal trail value => exact he
  | var trail valid => exact ⟨_, valid, rfl⟩
  | list hitems => exact legible_of_yieldsItems hitems he
  | binop hleft valid hright => exact he.elim
  | letIn valid hvalue hbody =>
    have hdeclare := legible_of_yields hvalue he.1
    have hgive := legible_of_yields hbody he.2
    exact ⟨⟨.inr ⟨_, valid, rfl⟩, hdeclare⟩, hgive, trivial⟩
  | apply hfunction hargs =>
    exact ⟨legible_of_yields hfunction he.1, legible_of_yieldsItems hargs he.2⟩
  | lambda valid distinct hbody =>
    refine ⟨?_, legible_of_yields hbody he⟩
    intro param hparam
    obtain ⟨name, hname, rfl⟩ := List.mem_map.mp hparam
    exact ⟨name, valid name hname, rfl⟩
  | cases hsubject hclauses =>
    have hdeclare := legible_of_yields hsubject he.1
    exact ⟨⟨.inl rfl, hdeclare⟩, legible_of_yieldsClauses hclauses he.2⟩

theorem legible_of_yieldsItems {trail : Trail} {index : Nat} {items : List Expr}
    {terms : List Term} (h : YieldsItems oneSubject false trail index items terms)
    (hitems : Expr.AllRecoverable items) : Term.AllLegible terms := by
  cases h with
  | nil trail index => trivial
  | cons hitem hrest =>
    exact ⟨legible_of_yields hitem hitems.1, legible_of_yieldsItems hrest hitems.2⟩

theorem legible_of_yieldsClauses {trail : Trail} {index : Nat} {clauses : List Clause}
    {stmts : List Stmt} (h : YieldsClauses oneSubject false trail index clauses stmts)
    (hclauses : Clause.AllRecoverable clauses) : Stmt.AllLegible stmts := by
  cases h with
  | failing trail index => exact ⟨trivial, trivial⟩
  | catchAll rest lowered total hbody =>
    exact legible_clauseBody lowered hclauses.1 (legible_of_yields hbody hclauses.2.1)
  | guarded lowered hpartial hbody hrest =>
    have hstmts := legible_clauseBody lowered hclauses.1 (legible_of_yields hbody hclauses.2.1)
    exact ⟨⟨checks_ne_nil hpartial, legible_checks lowered hclauses.1, hstmts⟩,
      legible_of_yieldsClauses hrest hclauses.2.2.2⟩

end

/-! ## What a term was yielded by -/

section Inversion

variable {subjects : Trail → String} {shadowing : Bool} {trail : Trail} {e : Expr}

theorem Yields.name_inv {identifier : String}
    (h : Yields subjects shadowing trail e (.name identifier)) :
    ∃ name, e = .var name ∧ Name.isValid name = true ∧ identifier = Name.identifier name := by
  cases h with
  | var _ valid => exact ⟨_, rfl, valid, rfl⟩

theorem Yields.array_inv {terms : List Term}
    (h : Yields subjects shadowing trail e (.array terms)) :
    ∃ items, e = .list items ∧
      YieldsItems subjects shadowing (trail.field "items") 0 items terms := by
  cases h with
  | list hitems => exact ⟨_, rfl, hitems⟩

theorem Yields.call_inv {functionTerm : Term} {argTerms : List Term}
    (h : Yields subjects shadowing trail e (.call functionTerm argTerms)) :
    ∃ function args, e = .apply function args ∧
      Yields subjects shadowing (trail.field "function") function functionTerm ∧
      YieldsItems subjects shadowing (trail.field "args") 0 args argTerms := by
  cases h with
  | apply hfunction hargs => exact ⟨_, _, rfl, hfunction, hargs⟩

theorem Yields.arrow_inv {identifiers : List String} {bodyTerm : Term}
    (h : Yields subjects shadowing trail e (.arrow identifiers bodyTerm)) :
    ∃ params body, e = .lambda params body ∧ (∀ param ∈ params, Name.isValid param = true) ∧
      identifiers = params.map Name.identifier ∧
      Yields subjects shadowing (trail.field "body") body bodyTerm := by
  cases h with
  | lambda valid _ hbody => exact ⟨_, _, rfl, valid, rfl, hbody⟩

/-- A block is a local definition or a match; a match declares the name of its subject first. -/
theorem Yields.block_inv {stmts : List Stmt}
    (h : Yields subjects shadowing trail e (.block stmts)) :
    (∃ name value body valueTerm bodyTerm, e = .letIn name value body ∧
        Name.isValid name = true ∧
        stmts = [.declare (Name.identifier name) valueTerm, .give bodyTerm] ∧
        Yields subjects shadowing (trail.field "value") value valueTerm ∧
        Yields subjects shadowing (trail.field "body") body bodyTerm) ∨
      ∃ subject clauses subjectTerm rest, e = .cases subject clauses ∧
        stmts = .declare (subjects trail) subjectTerm :: rest ∧
        Yields subjects shadowing (trail.field "subject") subject subjectTerm ∧
        YieldsClauses subjects shadowing trail 0 clauses rest := by
  cases h with
  | letIn valid hvalue hbody => exact .inl ⟨_, _, _, _, _, rfl, valid, rfl, hvalue, hbody⟩
  | cases hsubject hclauses => exact .inr ⟨_, _, _, _, rfl, rfl, hsubject, hclauses⟩

end Inversion

/-! ## Terms tell their trees -/

/-- If what `f` makes of an element tells what `g` makes of it, the same holds of lists. -/
theorem map_eq_of_map_eq {α β γ : Type} {f : α → β} {g : α → γ} {xs ys : List α}
    (hfg : ∀ x ∈ xs, ∀ y ∈ ys, f x = f y → g x = g y) (h : xs.map f = ys.map f) :
    xs.map g = ys.map g := by
  induction xs generalizing ys with
  | nil => rw [List.map_eq_nil_iff.mp h.symm]
  | cons x xs ih =>
    cases ys with
    | nil => cases h
    | cons y ys =>
      rw [List.map_cons, List.map_cons, List.cons.injEq] at h
      have hfirst := hfg x List.mem_cons_self y List.mem_cons_self h.1
      have hrest := ih (fun a ha b hb =>
        hfg a (List.mem_cons_of_mem x ha) b (List.mem_cons_of_mem y hb)) h.2
      rw [List.map_cons, List.map_cons, hfirst, hrest]

theorem eq_of_identifiers_eq {params params' : List Text}
    (hvalid : ∀ param ∈ params, Name.isValid param = true)
    (hvalid' : ∀ param ∈ params', Name.isValid param = true)
    (h : params.map Name.identifier = params'.map Name.identifier) : params = params' := by
  have hnames : params.map id = params'.map id := by
    apply map_eq_of_map_eq _ h
    intro param hparam param' hparam' heq
    exact Name.identifier_injective (hvalid param hparam) (hvalid' param' hparam') heq
  rwa [List.map_id, List.map_id] at hnames

theorem entries_eq_of_declarations_eq {lowering lowering' : Lowering String}
    (hvalid : ∀ binding ∈ lowering.bindings, Name.isValid binding.name = true)
    (hvalid' : ∀ binding ∈ lowering'.bindings, Name.isValid binding.name = true)
    (h : declarations lowering = declarations lowering') :
    Lowering.entries (·.ref) lowering.bindings = Lowering.entries (·.ref) lowering'.bindings := by
  apply map_eq_of_map_eq _ h
  intro binding hbinding binding' hbinding' hdeclare
  injection hdeclare with hidentifier hvalue
  injection hvalue with href
  have hname := Name.identifier_injective (hvalid binding hbinding) (hvalid' binding' hbinding')
    hidentifier
  exact Prod.ext hname href

/-- The body of a clause begins with a declaration or with its value. -/
theorem clauseBody_ne_cons {lowering : Lowering String} {bodyTerm : Term} {stmt : Stmt}
    {stmts : List Stmt} (hdeclare : ∀ identifier value, stmt ≠ .declare identifier value)
    (hgive : ∀ value, stmt ≠ .give value) :
    declarations lowering ++ [.give bodyTerm] ≠ stmt :: stmts := by
  intro h
  unfold declarations at h
  cases hbindings : lowering.bindings with
  | nil =>
    rw [hbindings] at h
    exact hgive bodyTerm (List.cons.inj h).1.symm
  | cons binding rest =>
    rw [hbindings] at h
    exact hdeclare _ _ (List.cons.inj h).1.symm

/-- The statements of a clause body determine the pattern and the body, given the checks. -/
theorem clause_eq_of_stmts_eq {trail trail' : Trail} {pattern pattern' : Pattern}
    {lowering lowering' : Lowering String} {bodyTerm bodyTerm' : Term}
    (hlower : pattern.lower false trail Name.subject = .ok lowering)
    (hlower' : pattern'.lower false trail' Name.subject = .ok lowering')
    (hchecks : lowering.checks = lowering'.checks)
    (h : declarations lowering ++ [.give bodyTerm] = declarations lowering' ++ [.give bodyTerm']) :
    pattern = pattern' ∧ bodyTerm = bodyTerm' := by
  obtain ⟨hdeclarations, hgive⟩ := List.append_inj' h rfl
  cases hgive
  have hplaces := entries_eq_of_declarations_eq (fun _ hb => isValid_of_mem_lower hlower hb)
    (fun _ hb => isValid_of_mem_lower hlower' hb) hdeclarations
  exact ⟨Pattern.eq_of_lower hlower hlower' hchecks hplaces, rfl⟩

mutual

/-- A term is the script of one tree at most. -/
theorem eq_of_yields {trail trail' : Trail} {e e' : Expr} {term : Term}
    (h : Yields oneSubject false trail e term) (h' : Yields oneSubject false trail' e' term)
    (he : e.Recoverable) (he' : e'.Recoverable) : e = e' := by
  cases h with
  | literal trail value =>
    cases h'
    rfl
  | var trail valid =>
    obtain ⟨name', rfl, hvalid', hidentifier⟩ := h'.name_inv
    rw [Name.identifier_injective valid hvalid' hidentifier]
  | list hitems =>
    obtain ⟨items', rfl, hitems'⟩ := h'.array_inv
    rw [eq_of_yieldsItems hitems hitems' he he']
  | binop hleft valid hright => exact he.elim
  | letIn valid hvalue hbody =>
    rcases h'.block_inv with
      ⟨name', value', body', _, _, rfl, hvalid', hstmts, hvalue', hbody'⟩ |
        ⟨subject', clauses', _, _, rfl, hstmts, -, -⟩
    · simp only [List.cons.injEq, Stmt.declare.injEq, Stmt.give.injEq, and_true] at hstmts
      obtain ⟨⟨hidentifier, rfl⟩, rfl⟩ := hstmts
      rw [Name.identifier_injective valid hvalid' hidentifier,
        eq_of_yields hvalue hvalue' he.1 he'.1, eq_of_yields hbody hbody' he.2 he'.2]
    · simp only [List.cons.injEq, Stmt.declare.injEq] at hstmts
      exact absurd hstmts.1.1 (Name.identifier_ne_subject valid)
  | apply hfunction hargs =>
    obtain ⟨function', args', rfl, hfunction', hargs'⟩ := h'.call_inv
    rw [eq_of_yields hfunction hfunction' he.1 he'.1, eq_of_yieldsItems hargs hargs' he.2 he'.2]
  | lambda valid distinct hbody =>
    obtain ⟨params', body', rfl, hvalid', hparams, hbody'⟩ := h'.arrow_inv
    rw [eq_of_identifiers_eq valid hvalid' hparams, eq_of_yields hbody hbody' he he']
  | cases hsubject hclauses =>
    rcases h'.block_inv with
      ⟨name', value', body', _, _, rfl, hvalid', hstmts, -, -⟩ |
        ⟨subject', clauses', _, _, rfl, hstmts, hsubject', hclauses'⟩
    · simp only [List.cons.injEq, Stmt.declare.injEq] at hstmts
      exact absurd hstmts.1.1.symm (Name.identifier_ne_subject hvalid')
    · simp only [List.cons.injEq, Stmt.declare.injEq] at hstmts
      obtain ⟨⟨-, rfl⟩, rfl⟩ := hstmts
      rw [eq_of_yields hsubject hsubject' he.1 he'.1,
        eq_of_yieldsClauses hclauses hclauses' he.2 he'.2]

theorem eq_of_yieldsItems {trail trail' : Trail} {index index' : Nat} {items items' : List Expr}
    {terms : List Term} (h : YieldsItems oneSubject false trail index items terms)
    (h' : YieldsItems oneSubject false trail' index' items' terms)
    (hitems : Expr.AllRecoverable items) (hitems' : Expr.AllRecoverable items') :
    items = items' := by
  cases h with
  | nil trail index =>
    cases h'
    rfl
  | cons hitem hrest =>
    cases h' with
    | cons hitem' hrest' =>
      rw [eq_of_yields hitem hitem' hitems.1 hitems'.1,
        eq_of_yieldsItems hrest hrest' hitems.2 hitems'.2]

theorem eq_of_yieldsClauses {trail trail' : Trail} {index index' : Nat}
    {clauses clauses' : List Clause} {stmts : List Stmt}
    (h : YieldsClauses oneSubject false trail index clauses stmts)
    (h' : YieldsClauses oneSubject false trail' index' clauses' stmts)
    (hclauses : Clause.AllRecoverable clauses) (hclauses' : Clause.AllRecoverable clauses') :
    clauses = clauses' := by
  generalize hstmts : stmts = stmts' at h'
  cases h with
  | failing trail index =>
    cases h' with
    | failing trail' index' => rfl
    | catchAll rest' _ _ _ => exact absurd hstmts.symm (clauseBody_ne_cons (by simp) (by simp))
    | guarded _ _ _ _ => cases hstmts
  | catchAll rest lowered total hbody =>
    cases h' with
    | failing trail' index' => exact absurd hstmts (clauseBody_ne_cons (by simp) (by simp))
    | catchAll rest' lowered' total' hbody' =>
      have hchecks := (List.isEmpty_iff.mp total).trans (List.isEmpty_iff.mp total').symm
      obtain ⟨rfl, rfl⟩ := clause_eq_of_stmts_eq lowered lowered' hchecks hstmts
      rw [isCatchAll_lower lowered] at total
      rw [eq_of_yields hbody hbody' hclauses.2.1 hclauses'.2.1, hclauses.2.2.1 total,
        hclauses'.2.2.1 total]
    | guarded _ _ _ _ => exact absurd hstmts (clauseBody_ne_cons (by simp) (by simp))
  | guarded lowered hpartial hbody hrest =>
    cases h' with
    | failing trail' index' => cases hstmts
    | catchAll rest' _ _ _ => exact absurd hstmts.symm (clauseBody_ne_cons (by simp) (by simp))
    | guarded lowered' hpartial' hbody' hrest' =>
      rw [List.cons.injEq, Stmt.guarded.injEq] at hstmts
      obtain ⟨⟨hchecks, hbodies⟩, rfl⟩ := hstmts
      obtain ⟨rfl, rfl⟩ := clause_eq_of_stmts_eq lowered lowered' hchecks hbodies
      rw [eq_of_yields hbody hbody' hclauses.2.1 hclauses'.2.1,
        eq_of_yieldsClauses hrest hrest' hclauses.2.2.2 hclauses'.2.2.2]

end

theorem term_of_script {settings : Settings} {e : Expr} {script : String}
    (h : e.script settings = .ok script) :
    ∃ term, Yields oneSubject settings.allowShadowing (.root "expr") e term ∧
      term.render settings.width = script := by
  rw [Expr.script] at h
  cases hresult : (e.emission settings).result with
  | error fault =>
    rw [hresult] at h
    cases h
  | ok term =>
    rw [hresult] at h
    exact ⟨term, yields_iff.mpr hresult, Except.ok.inj h⟩

/-- Without shadowing a script tells its tree. Two trees that hold no operation, no surrogate in a
string and no clause after one that every value matches are the same tree if their scripts have the
same text, at whatever widths they are laid out. -/
theorem eq_of_script_eq {e e' : Expr} {width width' : Int} {script : String}
    (he : e.Recoverable) (he' : e'.Recoverable) (h : e.script ⟨width, false⟩ = .ok script)
    (h' : e'.script ⟨width', false⟩ = .ok script) : e = e' := by
  obtain ⟨term, hterm, hrender⟩ := term_of_script h
  obtain ⟨term', hterm', hrender'⟩ := term_of_script h'
  have hread := readScript?_render (legible_of_yields hterm he) width
  have hread' := readScript?_render (legible_of_yields hterm' he') width'
  rw [hrender] at hread
  rw [hrender', hread, Option.some.injEq] at hread'
  rw [← hread'] at hterm'
  exact eq_of_yields hterm hterm' he he'

/-- A call of a function whose body is a match, with a local definition and a call of a call. -/
def calledMatch : Expr :=
  .apply
    (.lambda [Text.ofString "x"]
      (.cases (.var (Text.ofString "x"))
        [⟨.listTail [.list [.var (Text.ofString "y")]] (Text.ofString "ys"),
            .apply (.apply (.var (Text.ofString "y")) []) [.var (Text.ofString "ys")]⟩,
          ⟨.wildcard,
            .letIn (Text.ofString "z") (.literal (.int (-1))) (.var (Text.ofString "z"))⟩]))
    [.literal (.string (Text.ofString "é"))]

theorem eq_of_script_eq_calledMatch :
    ∃ script, calledMatch.Recoverable ∧ calledMatch.script ⟨80, false⟩ = .ok script ∧
      calledMatch.script ⟨60, false⟩ = .ok script ∧ calledMatch = calledMatch := by
  have hrecoverable : calledMatch.Recoverable := by
    simp [calledMatch, Expr.Recoverable, Expr.AllRecoverable, Clause.AllRecoverable,
      Pattern.IsScalar, Pattern.AllScalar, Literal.IsScalar, Text.IsScalar, Text.ofString,
      Pattern.catchesAll]
  obtain ⟨script, hscript⟩ : ∃ script, calledMatch.script ⟨80, false⟩ = .ok script := ⟨_, rfl⟩
  have hwidths : calledMatch.script ⟨60, false⟩ = calledMatch.script ⟨80, false⟩ := by
    decide +kernel
  have hnarrow := hwidths.trans hscript
  exact ⟨script, hrecoverable, hscript, hnarrow,
    eq_of_script_eq hrecoverable hrecoverable hscript hnarrow⟩

end Script
end CaseScript
