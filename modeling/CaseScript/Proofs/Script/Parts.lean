import CaseScript.Proofs.Doc.Progress
import CaseScript.Proofs.Expr.FreeNames
import CaseScript.Proofs.Pattern.Exactness
import CaseScript.Proofs.Script.Derivation

/-!
# Parts of scripts

Every part of an expression that is not dropped has a script, and the document of this script is a
part of the document of the whole.
-/

namespace CaseScript
namespace Script

open Doc

/-! ## Formats -/

section Formats

variable {part doc : Doc} {docs : List Doc}

theorem within_wrapped (opening closing : String) (h : part.Within doc) (hmem : doc ∈ docs) :
    part.Within (wrapped opening docs closing) := by
  have hempty : docs.isEmpty = false := by simp [List.ne_nil_of_mem hmem]
  rw [wrapped, enclosed, hempty]
  exact .group (.second _ (.first _ (.nestIfBroken _ (.second _ (h.join hmem)))))

theorem within_indented (h : part.Within doc) (hmem : doc ∈ docs) : part.Within (indented docs) :=
  .nest _ (.second _ (h.join hmem))

theorem within_immediate (h : part.Within doc) (hmem : doc ∈ docs) : part.Within (immediate docs) :=
  .second _ (.first _ (within_indented h hmem))

theorem within_conditional (tests : List Doc) (h : part.Within doc) (hmem : doc ∈ docs) :
    part.Within (conditional tests docs) := .second _ (.first _ (within_indented h hmem))

theorem within_declaration (identifier : String) (h : part.Within doc) :
    part.Within (declaration identifier doc) := .second _ (.first _ h)

theorem within_giving (h : part.Within doc) : part.Within (giving doc) := .second _ (.first _ h)

theorem within_arrowDoc (params : List String) (h : part.Within doc) :
    part.Within (arrowDoc params doc) :=
  .group (.second _ (.second _ (.first _ (.nestIfBroken _ (.second _ h)))))

theorem within_parenthesized (needed : Bool) (h : part.Within doc) :
    part.Within (parenthesized needed doc) := by
  unfold parenthesized
  split
  · exact .second _ (.first _ h)
  · exact h

theorem Stmt.doc_mem_docs {stmt : Stmt} {stmts : List Stmt} (h : stmt ∈ stmts) :
    stmt.doc ∈ Stmt.docs stmts := by
  induction stmts with
  | nil => exact absurd h List.not_mem_nil
  | cons other rest ih =>
    rw [docs, List.mem_cons]
    rcases List.mem_cons.mp h with rfl | hrest
    · exact .inl rfl
    · exact .inr (ih hrest)

/-- The value of a clause stands in the statements for it. -/
theorem exists_within_clauseBody (lowering : Lowering String) {bodyTerm : Term}
    (h : part.Within bodyTerm.doc) :
    ∃ doc ∈ Stmt.docs (declarations lowering ++ [.give bodyTerm]), part.Within doc :=
  ⟨_, Stmt.doc_mem_docs (List.mem_append_right _ List.mem_cons_self), within_giving h⟩

end Formats

/-! ## Parts of expressions -/

variable {subjects : Trail → String} {shadowing : Bool}

mutual

/-- All parts of an expression that has a script have scripts of their own within it. -/
theorem exists_part_of_mem {trail : Trail} {e : Expr} {term : Term}
    (h : Yields subjects shadowing trail e term) {s : Expr} (hs : s ∈ e.subexprs) :
    ∃ place part, Yields subjects shadowing place s part ∧ part.doc.Within term.doc := by
  cases h with
  | literal trail value =>
    rw [Expr.subexprs, List.mem_singleton] at hs
    exact hs ▸ ⟨_, _, .literal trail value, .self⟩
  | var trail valid =>
    rw [Expr.subexprs, List.mem_singleton] at hs
    exact hs ▸ ⟨_, _, .var trail valid, .self⟩
  | list hitems =>
    rw [Expr.subexprs, List.mem_cons] at hs
    rcases hs with rfl | hs
    · exact ⟨_, _, .list hitems, .self⟩
    · obtain ⟨place, part, hpart, doc, hdoc, hwithin⟩ := exists_part_of_mem_items hitems hs
      exact ⟨place, part, hpart, within_wrapped "[" "]" hwithin hdoc⟩
  | binop hleft valid hright =>
    rw [Expr.subexprs, List.mem_cons, List.mem_append] at hs
    rcases hs with rfl | hs | hs
    · exact ⟨_, _, .binop hleft valid hright, .self⟩
    · obtain ⟨place, part, hpart, hwithin⟩ := exists_part_of_mem hleft hs
      exact ⟨place, part, hpart, .first _ hwithin⟩
    · obtain ⟨place, part, hpart, hwithin⟩ := exists_part_of_mem hright hs
      exact ⟨place, part, hpart, .second _ (.second _ (.first _ hwithin))⟩
  | letIn valid hvalue hbody =>
    rw [Expr.subexprs, List.mem_cons, List.mem_append] at hs
    rcases hs with rfl | hs | hs
    · exact ⟨_, _, .letIn valid hvalue hbody, .self⟩
    · obtain ⟨place, part, hpart, hwithin⟩ := exists_part_of_mem hvalue hs
      exact ⟨place, part, hpart,
        within_immediate (within_declaration _ hwithin) List.mem_cons_self⟩
    · obtain ⟨place, part, hpart, hwithin⟩ := exists_part_of_mem hbody hs
      exact ⟨place, part, hpart,
        within_immediate (within_giving hwithin) (List.mem_cons_of_mem _ List.mem_cons_self)⟩
  | apply hfunction hargs =>
    rw [Expr.subexprs, List.mem_cons, List.mem_append] at hs
    rcases hs with rfl | hs | hs
    · exact ⟨_, _, .apply hfunction hargs, .self⟩
    · obtain ⟨place, part, hpart, hwithin⟩ := exists_part_of_mem hfunction hs
      exact ⟨place, part, hpart, .first _ (within_parenthesized _ hwithin)⟩
    · obtain ⟨place, part, hpart, doc, hdoc, hwithin⟩ := exists_part_of_mem_items hargs hs
      exact ⟨place, part, hpart, .second _ (within_wrapped "(" ")" hwithin hdoc)⟩
  | lambda valid distinct hbody =>
    rw [Expr.subexprs, List.mem_cons] at hs
    rcases hs with rfl | hs
    · exact ⟨_, _, .lambda valid distinct hbody, .self⟩
    · obtain ⟨place, part, hpart, hwithin⟩ := exists_part_of_mem hbody hs
      exact ⟨place, part, hpart, within_arrowDoc _ hwithin⟩
  | cases hsubject hclauses =>
    rw [Expr.subexprs, List.mem_cons, List.mem_append] at hs
    rcases hs with rfl | hs | hs
    · exact ⟨_, _, .cases hsubject hclauses, .self⟩
    · obtain ⟨place, part, hpart, hwithin⟩ := exists_part_of_mem hsubject hs
      exact ⟨place, part, hpart,
        within_immediate (within_declaration _ hwithin) List.mem_cons_self⟩
    · obtain ⟨place, part, hpart, doc, hdoc, hwithin⟩ := exists_part_of_mem_clauses hclauses hs
      exact ⟨place, part, hpart, within_immediate hwithin (List.mem_cons_of_mem _ hdoc)⟩

theorem exists_part_of_mem_items {trail : Trail} {index : Nat} {items : List Expr}
    {terms : List Term} (h : YieldsItems subjects shadowing trail index items terms) {s : Expr}
    (hs : s ∈ Expr.itemSubexprs items) :
    ∃ place part, Yields subjects shadowing place s part ∧
      ∃ doc ∈ Term.docs terms, part.doc.Within doc := by
  cases h with
  | nil trail index => exact absurd hs List.not_mem_nil
  | cons hitem hrest =>
    rw [Expr.itemSubexprs, List.mem_append] at hs
    rw [Term.docs]
    rcases hs with hs | hs
    · obtain ⟨place, part, hpart, hwithin⟩ := exists_part_of_mem hitem hs
      exact ⟨place, part, hpart, _, List.mem_cons_self, hwithin⟩
    · obtain ⟨place, part, hpart, doc, hdoc, hwithin⟩ := exists_part_of_mem_items hrest hs
      exact ⟨place, part, hpart, doc, List.mem_cons_of_mem _ hdoc, hwithin⟩

theorem exists_part_of_mem_clauses {trail : Trail} {index : Nat} {clauses : List Clause}
    {stmts : List Stmt} (h : YieldsClauses subjects shadowing trail index clauses stmts) {s : Expr}
    (hs : s ∈ Expr.clauseSubexprs clauses) :
    ∃ place part, Yields subjects shadowing place s part ∧
      ∃ doc ∈ Stmt.docs stmts, part.doc.Within doc := by
  cases h with
  | failing trail index => exact absurd hs List.not_mem_nil
  | catchAll rest lowered total hbody =>
    rw [isCatchAll_lower lowered] at total
    simp only [Expr.clauseSubexprs, total, if_true, List.append_nil] at hs
    obtain ⟨place, part, hpart, hwithin⟩ := exists_part_of_mem hbody hs
    exact ⟨place, part, hpart, exists_within_clauseBody _ hwithin⟩
  | guarded lowered partial_checks hbody hrest =>
    rw [isCatchAll_lower lowered] at partial_checks
    simp only [Expr.clauseSubexprs, partial_checks, Bool.false_eq_true, if_false,
      List.mem_append] at hs
    rw [Stmt.docs]
    rcases hs with hs | hs
    · obtain ⟨place, part, hpart, hwithin⟩ := exists_part_of_mem hbody hs
      obtain ⟨doc, hdoc, hwithin⟩ := exists_within_clauseBody _ hwithin
      exact ⟨place, part, hpart, _, List.mem_cons_self, within_conditional _ hwithin hdoc⟩
    · obtain ⟨place, part, hpart, doc, hdoc, hwithin⟩ := exists_part_of_mem_clauses hrest hs
      exact ⟨place, part, hpart, doc, List.mem_cons_of_mem _ hdoc, hwithin⟩

end

end Script
end CaseScript
