import CaseScript.Proofs.Doc.FlatText
import CaseScript.Proofs.Js.Syntax
import CaseScript.Proofs.Pattern.Renaming
import CaseScript.Script.Format
import CaseScript.Script.OfExpr

/-!
# Scripts as JavaScript

The JavaScript program that a script stands for. References become the items and slices of the
subject, a check of a length becomes two tests, and a block becomes the call of a function. The
documents of references and checks say just what these programs say.
-/

namespace CaseScript

variable {σ : Type}

/-- The expression for a place inside a subject that is itself held by `subject`. -/
def Ref.code (subject : σ → Js.Expression) : Ref σ → Js.Expression
  | .subject s => subject s
  | .item list index => .item (list.code subject) index
  | .rest list start => .call (.member (list.code subject) "slice") [.literal (.int start)]

/-- The tests that a check consists of, in the order in which they are made. -/
def Check.tests (subject : σ → Js.Expression) : Check σ → List Js.Expression
  | .length ref count atLeast =>
    [.call (.member (.name "Array") "isArray") [ref.code subject],
      .operation (if atLeast then ">=" else "===") (.member (ref.code subject) "length")
        (.literal (.int count))]
  | .equals ref literal => [.operation "===" (ref.code subject) (.literal literal)]

def Check.code (subject : σ → Js.Expression) (check : Check σ) : Js.Expression :=
  Js.conjunction (check.tests subject)

/-- The condition that all checks hold. -/
def Check.condition (subject : σ → Js.Expression) (checks : List (Check σ)) : Js.Expression :=
  Js.conjunction (checks.flatMap (Check.tests subject))

theorem Check.tests_ne_nil (subject : σ → Js.Expression) (check : Check σ) :
    check.tests subject ≠ [] := by
  cases check <;> simp [tests]

/-- Only the root of a reference names anything. -/
theorem Ref.code_map {τ : Type} (f : τ → σ) (subject : σ → Js.Expression) (ref : Ref τ) :
    (ref.map f).code subject = ref.code fun t => subject (f t) := by
  induction ref with
  | subject s => rfl
  | item list index ih => rw [map, code, ih, code]
  | rest list start ih => rw [map, code, ih, code]

theorem Check.tests_map {τ : Type} (f : τ → σ) (subject : σ → Js.Expression) (check : Check τ) :
    (check.map f).tests subject = check.tests fun t => subject (f t) := by
  cases check <;> simp only [map, tests, Ref.code_map]

theorem Check.condition_map {τ : Type} (f : τ → σ) (subject : σ → Js.Expression)
    (checks : List (Check τ)) :
    Check.condition subject (checks.map (Check.map f)) =
      Check.condition (fun t => subject (f t)) checks := by
  simp only [condition, List.flatMap_map, tests_map]

/-- Does a function that collects something from all parts of an expression find nothing in a
literal and nothing in a name? -/
structure Js.OverlooksNames {α : Type} (collect : Js.Expression → List α) : Prop where
  literal : ∀ value, collect (.literal value) = []
  name : ∀ identifier, collect (.name identifier) = []
  member : ∀ object property, collect (.member object property) = collect object
  item : ∀ object index, collect (.item object index) = collect object
  call : ∀ callee arg, collect (.call callee [arg]) = collect callee ++ collect arg
  operation : ∀ op left right, collect (.operation op left right) = collect left ++ collect right

namespace Js.OverlooksNames

variable {α : Type} {collect : Js.Expression → List α}

theorem ref (h : Js.OverlooksNames collect) (ref : Ref String) :
    collect (ref.code .name) = [] := by
  induction ref with
  | subject s => exact h.name s
  | item list index ih => rw [Ref.code, h.item, ih]
  | rest list start ih => rw [Ref.code, h.call, h.member, ih, h.literal, List.append_nil]

theorem condition (h : Js.OverlooksNames collect) (checks : List (Check String)) :
    collect (Check.condition .name checks) = [] := by
  unfold Check.condition
  rw [Js.collect_conjunction collect (h.literal _) (h.operation "&&"), List.flatMap_eq_nil_iff]
  intro test htest
  obtain ⟨check, -, htest⟩ := List.mem_flatMap.mp htest
  cases check with
  | length ref count atLeast =>
    simp only [Check.tests, List.mem_cons, List.not_mem_nil, or_false] at htest
    rcases htest with rfl | rfl
    · rw [h.call, h.member, h.name, h.ref, List.append_nil]
    · rw [h.operation, h.member, h.ref, h.literal, List.append_nil]
  | equals ref literal =>
    rw [Check.tests, List.mem_singleton] at htest
    rw [htest, h.operation, h.ref, h.literal, List.append_nil]

end Js.OverlooksNames

namespace Script

mutual

def Term.code : Term → Js.Expression
  | .literal value => .literal value
  | .name identifier => .name identifier
  | .array items => .array (Term.codes items)
  | .operation op left right => left.code.joined op right.code
  | .arrow params body => body.code.overFirst (.arrow params)
  | .call function args =>
    .call (if function.needsParens then .parens function.code else function.code) (Term.codes args)
  | .ref place => place.code .name
  | .block body => .call (.parens (.function (Stmt.codes body))) []

def Term.codes : List Term → List Js.Expression
  | [] => []
  | term :: rest => term.code :: Term.codes rest

def Stmt.code : Stmt → Js.Statement
  | .declare identifier value => .letBe identifier value.code
  | .give value => .giveBack value.code
  | .guarded checks body => .ifThen (Check.condition .name checks) (Stmt.codes body)
  | .fail =>
    .throw (.construct (.name "Error") [.literal (.string (Text.ofString failureMessage))])

def Stmt.codes : List Stmt → List Js.Statement
  | [] => []
  | stmt :: rest => stmt.code :: Stmt.codes rest

end

theorem Term.codes_eq (terms : List Term) : Term.codes terms = terms.map Term.code := by
  induction terms with
  | nil => rfl
  | cons term rest ih => rw [Term.codes, ih, List.map_cons]

theorem Stmt.codes_eq (stmts : List Stmt) : Stmt.codes stmts = stmts.map Stmt.code := by
  induction stmts with
  | nil => rfl
  | cons stmt rest ih => rw [Stmt.codes, ih, List.map_cons]

/-- There is no comma in a reference. -/
theorem later_ref (ref : Ref String) : (ref.code .name).later = [] := by
  cases ref <;> rfl

/-- The body of a clause declares the names of its pattern. -/
theorem declared_clauseBody (lowering : Lowering String) (bodyTerm : Term) :
    Js.declared (Stmt.codes (declarations lowering ++ [.give bodyTerm])) =
      lowering.bindings.map fun binding => Name.identifier binding.name := by
  unfold declarations
  induction lowering.bindings with
  | nil => rfl
  | cons binding rest ih => simp [Stmt.codes, Stmt.code, Js.declared, Term.code, later_ref, ih]

end Script

/-! ## The text of references and checks -/

section Text

variable {toDoc : σ → Doc} {subject : σ → Js.Expression}

theorem Ref.flatText_doc (h : ∀ s, (toDoc s).flatText = (subject s).written) (ref : Ref σ) :
    (ref.doc toDoc).flatText = (ref.code subject).written := by
  induction ref with
  | subject s => exact h s
  | item list index ih =>
    simp [Ref.doc, Ref.code, Doc.flatText, Js.Expression.written, ih, String.append_assoc]
  | rest list start ih =>
    have hs : toString (start : Int) = toString start := rfl
    simp [Ref.doc, Ref.code, Doc.flatText, Js.Expression.written, Js.Expression.writtenAll,
      Literal.written, ih, hs, String.append_assoc]

theorem Check.flatText_doc (h : ∀ s, (toDoc s).flatText = (subject s).written) (check : Check σ) :
    (check.doc toDoc).flatText = (check.code subject).written := by
  rw [Check.code, Js.written_conjunction (check.tests_ne_nil subject)]
  cases check with
  | length ref count atLeast =>
    rw [← String.toList_inj]
    cases atLeast <;>
      simp [Check.doc, Check.tests, Script.lengthTest, Script.conjunctionMark, Doc.flatText,
        Doc.space, Js.Expression.written, Js.Expression.writtenAll, Literal.written,
        ref.flatText_doc h]
  | equals ref literal =>
    rw [← String.toList_inj]
    simp [Check.doc, Check.tests, Script.equalityTest, Doc.flatText, Js.Expression.written,
      ref.flatText_doc h]

/-- The documents of several checks joined together say the condition that all of them hold. -/
theorem Check.flatText_conjunction (h : ∀ s, (toDoc s).flatText = (subject s).written)
    {checks : List (Check σ)} (hc : checks ≠ []) :
    (Script.conjunction (checks.map (·.doc toDoc))).flatText =
      (Check.condition subject checks).written := by
  have hmark : Script.conjunctionMark.flatText = " && " := rfl
  have hne : ∀ {checks : List (Check σ)}, checks ≠ [] →
      checks.flatMap (Check.tests subject) ≠ [] := by
    intro checks hc
    obtain ⟨check, rest, rfl⟩ := List.exists_cons_of_ne_nil hc
    simp [Check.tests_ne_nil]
  rw [Check.condition, Js.written_conjunction (hne hc), Script.conjunction, Doc.flatText_join,
    hmark]
  clear hmark
  induction checks with
  | nil => exact absurd rfl hc
  | cons check rest ih =>
    have hcheck : (check.doc toDoc).flatText =
        " && ".intercalate ((check.tests subject).map Js.Expression.written) := by
      rw [Check.flatText_doc h, Check.code, Js.written_conjunction (check.tests_ne_nil subject)]
    by_cases hr : rest = []
    · subst hr
      simpa using hcheck
    · rw [List.map_cons, List.map_cons, String.intercalate_cons_of_ne_nil (by simpa using hr),
        ih hr, List.flatMap_cons, List.map_append, String.intercalate_append_of_ne_nil
          (by simpa using check.tests_ne_nil subject) (by simpa using hne hr), hcheck]

end Text

end CaseScript
