import CaseScript.Proofs.Script.Code
import CaseScript.Proofs.Script.Derivation

/-!
# The text of scripts

Every script that a tree yields says, in its flat text, the JavaScript program that it stands for.
-/

namespace CaseScript
namespace Script

open Doc

theorem flatText_wrapped (opening : String) (items : List Doc) (closing : String) :
    (wrapped opening items closing).flatText =
      opening ++ ", ".intercalate (items.map flatText) ++ closing := by
  by_cases h : items.isEmpty = true
  · simp [wrapped, enclosed, flatText, List.isEmpty_iff.mp h]
  · have hcomma : comma.flatText = ", " := rfl
    simp [wrapped, enclosed, h, flatText, softBreak, flatText_join, hcomma, String.append_assoc]

theorem flatText_arrowDoc (params : List String) (body : Doc) :
    (arrowDoc params body).flatText =
      "(" ++ ", ".intercalate params ++ ") => " ++ body.flatText := by
  have htexts : (params.map text).map flatText = params := by
    rw [List.map_map]
    exact List.map_id' params
  have hparams := flatText_wrapped "(" (params.map text) ")"
  rw [wrapped, flatText, htexts] at hparams
  rw [← String.toList_inj]
  simp [arrowDoc, flatText, space, hparams]

theorem flatText_indented (stmts : List Doc) :
    (indented stmts).flatText = "\n" ++ "\n".intercalate (stmts.map flatText) := by
  simp [indented, flatText, flatText_join]

theorem flatText_immediate (stmts : List Doc) :
    (immediate stmts).flatText =
      "(() => \x7b\n" ++ "\n".intercalate (stmts.map flatText) ++ "\n\x7d)()" := by
  rw [← String.toList_inj]
  simp [immediate, flatText, flatText_indented]

theorem flatText_conditional (tests body : List Doc) :
    (conditional tests body).flatText =
      "if (" ++ (conjunction tests).flatText ++ ") \x7b\n" ++
        "\n".intercalate (body.map flatText) ++ "\n\x7d" := by
  rw [← String.toList_inj]
  simp [conditional, flatText, softBreak, flatText_indented]

variable {subjects : Trail → String} {shadowing : Bool}

theorem checks_ne_nil {lowering : Lowering String} (h : lowering.isCatchAll = false) :
    lowering.checks ≠ [] := by
  simpa [Lowering.isCatchAll] using h

theorem flatText_declarations (lowering : Lowering String) :
    (Stmt.docs (declarations lowering)).map flatText =
      Js.Statement.writtenAll (Stmt.codes (declarations lowering)) := by
  unfold declarations
  induction lowering.bindings with
  | nil => rfl
  | cons binding rest ih =>
    have href : (binding.ref.doc text).flatText = (binding.ref.code .name).written :=
      binding.ref.flatText_doc fun _ => rfl
    rw [List.map_cons, Stmt.docs, Stmt.codes, List.map_cons, Js.Statement.writtenAll, ih]
    simp [Stmt.doc, Stmt.code, declaration, Term.doc, Term.code, flatText, Js.Statement.written,
      href, String.append_assoc]

theorem Stmt.docs_append (first second : List Stmt) :
    Stmt.docs (first ++ second) = Stmt.docs first ++ Stmt.docs second := by
  induction first with
  | nil => rfl
  | cons stmt rest ih => rw [List.cons_append, Stmt.docs, ih]; rfl

/-- The body of a clause declares the names of the pattern and gives a value. -/
theorem forall_mem_docs_clauseBody {lowering : Lowering String} {bodyTerm : Term} {P : Doc → Prop} :
    (∀ doc ∈ Stmt.docs (declarations lowering ++ [.give bodyTerm]), P doc) ↔
      (∀ binding ∈ lowering.bindings,
        P (declaration (Name.identifier binding.name) (binding.ref.doc text))) ∧
        P (giving bodyTerm.doc) := by
  have hgive : ∀ doc, doc ∈ Stmt.docs [.give bodyTerm] ↔ doc = giving bodyTerm.doc :=
    fun doc => List.mem_singleton
  rw [Stmt.docs_append, List.forall_mem_append]
  simp only [hgive, forall_eq]
  apply and_congr_left'
  unfold declarations
  induction lowering.bindings with
  | nil => simp [Stmt.docs]
  | cons binding rest ih =>
    rw [List.map_cons, Stmt.docs, List.forall_mem_cons, List.forall_mem_cons, ih]
    rfl

theorem writtenAll_append (first second : List Js.Statement) :
    Js.Statement.writtenAll (first ++ second) =
      Js.Statement.writtenAll first ++ Js.Statement.writtenAll second := by
  induction first with
  | nil => rfl
  | cons stmt rest ih => rw [List.cons_append, Js.Statement.writtenAll, ih]; rfl

/-- The statements of a clause's body say what they stand for, if the value given back does. -/
theorem flatText_clauseBody (lowering : Lowering String) {bodyTerm : Term}
    (h : bodyTerm.doc.flatText = bodyTerm.code.written) :
    (Stmt.docs (declarations lowering ++ [.give bodyTerm])).map flatText =
      Js.Statement.writtenAll (Stmt.codes (declarations lowering ++ [.give bodyTerm])) := by
  have hgive : (Stmt.docs [.give bodyTerm]).map flatText =
      Js.Statement.writtenAll (Stmt.codes [.give bodyTerm]) := by
    simp [Stmt.docs, Stmt.codes, Stmt.doc, Stmt.code, giving, flatText, Js.Statement.writtenAll,
      Js.Statement.written, h, String.append_assoc]
  rw [Stmt.docs_append, List.map_append, flatText_declarations, hgive, Stmt.codes_eq, Stmt.codes_eq,
    Stmt.codes_eq, List.map_append, writtenAll_append]

mutual

theorem flatText_doc {trail : Trail} {e : Expr} {term : Term}
    (h : Yields subjects shadowing trail e term) : term.doc.flatText = term.code.written := by
  cases h with
  | literal trail value => rfl
  | var trail valid => rfl
  | list hitems =>
    rw [Term.doc, flatText_wrapped, flatText_docs hitems]
    rfl
  | binop hleft valid hright =>
    rw [Term.code, Js.written_joined, ← String.toList_inj]
    simp [Term.doc, flatText, flatText_doc hleft, flatText_doc hright]
  | letIn valid hvalue hbody =>
    rw [← String.toList_inj]
    simp [Term.doc, Term.code, flatText_immediate, Stmt.docs, Stmt.codes, Stmt.doc, Stmt.code,
      declaration, giving, flatText, Js.Expression.written, Js.Expression.writtenAll,
      Js.Statement.writtenAll, Js.Statement.written, flatText_doc hvalue, flatText_doc hbody]
  | apply hfunction hargs =>
    rename_i function args functionTerm argTerms
    rw [← String.toList_inj]
    cases hp : functionTerm.needsParens <;>
      simp [Term.doc, Term.code, hp, parenthesized, flatText, flatText_wrapped,
        Js.Expression.written, flatText_doc hfunction, flatText_docs hargs]
  | lambda valid distinct hbody =>
    rw [Term.doc, flatText_arrowDoc, flatText_doc hbody, Term.code]
    exact (Js.written_overFirst _ (fun e => by rw [Js.Expression.written]) _).symm
  | cases hsubject hclauses =>
    rename_i subject clauses subjectTerm stmts
    rw [← String.toList_inj]
    simp [Term.doc, Term.code, flatText_immediate, Stmt.docs, Stmt.codes, Stmt.doc, Stmt.code,
      declaration, flatText, Js.Expression.written, Js.Expression.writtenAll,
      Js.Statement.writtenAll, Js.Statement.written, flatText_doc hsubject,
      flatText_stmtDocs hclauses]

theorem flatText_docs {trail : Trail} {index : Nat} {items : List Expr} {terms : List Term}
    (h : YieldsItems subjects shadowing trail index items terms) :
    (Term.docs terms).map flatText = Js.Expression.writtenAll (Term.codes terms) := by
  cases h with
  | nil trail index => rfl
  | cons hitem hrest =>
    rw [Term.docs, Term.codes, Js.Expression.writtenAll, List.map_cons, flatText_doc hitem,
      flatText_docs hrest]

theorem flatText_stmtDocs {trail : Trail} {index : Nat} {clauses : List Clause}
    {stmts : List Stmt} (h : YieldsClauses subjects shadowing trail index clauses stmts) :
    (Stmt.docs stmts).map flatText = Js.Statement.writtenAll (Stmt.codes stmts) := by
  cases h with
  | failing trail index => decide +kernel
  | catchAll rest lowered total hbody => exact flatText_clauseBody _ (flatText_doc hbody)
  | guarded lowered hpartial hbody hrest =>
    rename_i pattern body bodyTerm lowering rest stmts
    have hname : ∀ s, (text s).flatText = (Js.Expression.name s).written := fun _ => rfl
    have hcondition := Check.flatText_conjunction hname (checks_ne_nil hpartial)
    rw [Stmt.docs, Stmt.codes, Js.Statement.writtenAll, List.map_cons, flatText_stmtDocs hrest,
      Stmt.doc, flatText_conditional, hcondition, flatText_clauseBody lowering (flatText_doc hbody)]
    rfl

end

end Script
end CaseScript
