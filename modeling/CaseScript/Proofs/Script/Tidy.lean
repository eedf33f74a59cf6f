import CaseScript.Proofs.Doc.Tidy
import CaseScript.Proofs.Script.Parts
import CaseScript.Proofs.Script.Unbroken
import CaseScript.Proofs.Script.Widths

/-!
# Tidy scripts

No line of a script is empty or ends in a space. So wherever a script holds a text that ends in a
space, such as `return `, it goes on behind it in the same line, and no value is cut off from the
word that returns it.
-/

namespace CaseScript
namespace Script

open Doc Text

/-! ## Formats -/

section Formats

variable {docs : List Doc} {doc : Doc}

theorem tidies_comma : Tidies EndsVisibly comma Unknown :=
  tidies_append (isTidy_text (by decide)).tidies tidies_space

theorem tidies_conjunctionMark : Tidies EndsVisibly conjunctionMark Unknown :=
  tidies_append (isTidy_text (by decide)).tidies tidies_space

/-- The break before a closing delimiter. -/
theorem tidies_lastComma : Tidies EndsVisibly (brk "" ",") Unknown := by
  apply tidies_brk (by decide) (by decide)
  intro s _
  exact EndsVisibly.append (by decide) s

theorem isTidy_enclosed {opening closing : String} (hopening : Solid opening.toList)
    (hclosing : Solid closing.toList) (h : ∀ doc ∈ docs, doc.IsTidy) :
    (enclosed opening docs closing).IsTidy := by
  unfold enclosed
  split
  · apply isTidy_text
    rw [String.toList_append]
    exact hclosing.append hopening.1
  · rename_i hempty
    have hne : docs ≠ [] := by simpa using hempty
    have hbody : Tidies EndsVisibly (softBreak ++ join comma docs) EndsVisibly :=
      tidies_append tidies_softBreak (tidies_join tidies_comma hne h)
    apply tidies_append (isTidy_text hopening)
    apply tidies_append hbody
    exact tidies_append tidies_lastComma (tidies_last (isTidy_text hclosing))

theorem isTidy_declaration {identifier : String} (hname : '\n' ∉ identifier.toList)
    (h : doc.IsTidy) : (declaration identifier doc).IsTidy := by
  have hlet : '\n' ∉ ("let " ++ identifier ++ " = ").toList := by
    simp [hname]
  apply tidies_append (tidies_text hlet)
  exact tidies_append h (tidies_last (isTidy_text (by decide)).tidies)

theorem isTidy_giving (h : doc.IsTidy) : (giving doc).IsTidy := by
  apply tidies_append (tidies_text (by decide))
  exact tidies_append h (tidies_last (isTidy_text (by decide)).tidies)

theorem tidies_indented (hne : docs ≠ []) (h : ∀ doc ∈ docs, doc.IsTidy) :
    Tidies EndsVisibly (indented docs) EndsVisibly :=
  tidies_append tidies_line (tidies_join tidies_line hne h)

/-- Statements in a line each, between a solid text and a last line. -/
theorem tidies_block {closing : String} (hclosing : Solid closing.toList) (hne : docs ≠ [])
    (h : ∀ doc ∈ docs, doc.IsTidy) :
    Tidies EndsVisibly (concat [indented docs, line, text closing]) EndsVisibly := by
  apply tidies_append (tidies_indented hne h)
  exact tidies_append tidies_line (tidies_last (isTidy_text hclosing))

theorem isTidy_immediate (hne : docs ≠ []) (h : ∀ doc ∈ docs, doc.IsTidy) :
    (immediate docs).IsTidy :=
  tidies_append (isTidy_text (by decide)) (tidies_block (by decide) hne h)

theorem isTidy_conditional {tests : List Doc} (hne : tests ≠ [])
    (htests : ∀ test ∈ tests, test.IsTidy) (hdocs : docs ≠ []) (h : ∀ doc ∈ docs, doc.IsTidy) :
    (conditional tests docs).IsTidy := by
  have hconjunction : Tidies EndsVisibly (softBreak ++ conjunction tests) EndsVisibly :=
    tidies_append tidies_softBreak (tidies_join tidies_conjunctionMark hne htests)
  have hcondition : (concat [text "if (", nest indentation (softBreak ++ conjunction tests),
      softBreak, text ") \x7b"]).IsTidy := by
    apply tidies_append (isTidy_text (by decide))
    apply tidies_append hconjunction
    exact tidies_append tidies_softBreak (tidies_last (isTidy_text (by decide)))
  exact tidies_append hcondition (tidies_block (by decide) hdocs h)

theorem isTidy_failure : failure.IsTidy := isTidy_text (by decide +kernel)

theorem isTidy_arrowDoc {params : List String} (hparams : ∀ param ∈ params, Solid param.toList)
    (h : doc.IsTidy) : (arrowDoc params doc).IsTidy := by
  have henclosed : (enclosed "(" (params.map text) ")").IsTidy := by
    apply isTidy_enclosed (by decide) (by decide)
    rw [List.forall_mem_map]
    intro param hparam
    exact isTidy_text (hparams param hparam)
  apply tidies_append henclosed
  apply tidies_append (isTidy_text (by decide)).tidies
  exact tidies_last (tidies_append tidies_space h)

theorem isTidy_parenthesized (needed : Bool) (h : doc.IsTidy) :
    (parenthesized needed doc).IsTidy := by
  unfold parenthesized
  split
  · apply tidies_append (isTidy_text (by decide))
    exact tidies_append h.tidies (tidies_last (isTidy_text (by decide)).tidies)
  · exact h

end Formats

/-! ## Words -/

theorem solid_of_endsFirmly {t : String} (h : '\n' ∉ t.toList) (hfirm : (text t).EndsFirmly) :
    Solid t.toList := by
  obtain ⟨c, hlast, -, hc⟩ := hfirm
  exact ⟨h, c, hlast, hc⟩

theorem solid_literal (value : Literal) : Solid value.written.toList :=
  solid_of_endsFirmly value.newline_notMem_written (endsFirmly_literal value)

theorem solid_identifier {name : Text} (h : Name.isValid name = true) :
    Solid (Name.identifier name).toList :=
  solid_of_endsFirmly (Name.newline_notMem_identifier h) (endsFirmly_identifier h)

theorem solid_between {opening closing : String} (hopening : '\n' ∉ opening.toList)
    (hclosing : Solid closing.toList) (n : Nat) :
    Solid (opening ++ toString n ++ closing).toList := by
  rw [String.toList_append]
  apply hclosing.append
  rw [String.toList_append, List.mem_append, not_or]
  exact ⟨hopening, newline_notMem_toString n⟩

theorem isTidy_ref {subject : String} (h : Solid subject.toList) (ref : Ref Unit) :
    ((ref.map fun _ => subject).doc text).IsTidy := by
  induction ref with
  | subject s => exact isTidy_text h
  | item list index ih =>
    exact tidies_append ih (isTidy_text (solid_between (by decide) (by decide) index)).tidies
  | rest list start ih =>
    exact tidies_append ih (isTidy_text (solid_between (by decide) (by decide) start)).tidies

theorem isTidy_check {subject : String} (h : Solid subject.toList) (check : Check Unit) :
    ((check.map fun _ => subject).doc text).IsTidy := by
  cases check with
  | length ref count atLeast =>
    have href := isTidy_ref h ref
    have hcompare : '\n' ∉ (if atLeast then " >= " else " === ").toList := by
      cases atLeast <;> decide
    have hcount : Tidies Unknown (text (toString count)) EndsVisibly :=
      isTidy_text (solid_literal (.int count))
    apply tidies_append (isTidy_text (by decide))
    apply tidies_append href.tidies
    apply tidies_append (isTidy_text (by decide)).tidies
    apply tidies_append tidies_conjunctionMark
    apply tidies_append href
    apply tidies_append (isTidy_text (by decide)).tidies
    exact tidies_append (tidies_text hcompare) (tidies_last hcount)
  | equals ref literal =>
    apply tidies_append (isTidy_ref h ref)
    exact tidies_append (tidies_text (by decide))
      (tidies_last (isTidy_text (solid_literal literal)))

/-! ## Scripts -/

variable {shadowing : Bool} {trail : Trail} {lowering : Lowering String} {p : Pattern}

theorem Stmt.docs_cons_ne_nil (stmt : Stmt) (rest : List Stmt) : docs (stmt :: rest) ≠ [] :=
  List.cons_ne_nil _ _

theorem Stmt.forall_mem_docs_cons {stmt : Stmt} {rest : List Stmt} {P : Doc → Prop} :
    (∀ doc ∈ docs (stmt :: rest), P doc) ↔ P stmt.doc ∧ ∀ doc ∈ docs rest, P doc :=
  List.forall_mem_cons

theorem solid_subject : Solid Name.subject.toList := by decide

theorem isTidy_checks (h : p.lower shadowing trail Name.subject = .ok lowering) :
    ∀ check ∈ lowering.checks.map (·.doc text), check.IsTidy := by
  obtain ⟨shape, -, rfl⟩ := Pattern.exists_shape h
  rw [List.forall_mem_map]
  intro check hcheck
  obtain ⟨form, -, rfl⟩ := List.mem_map.mp hcheck
  exact isTidy_check solid_subject form

theorem isTidy_clauseBody (h : p.lower shadowing trail Name.subject = .ok lowering)
    {bodyTerm : Term} (hbody : bodyTerm.doc.IsTidy) :
    ∀ doc ∈ Stmt.docs (declarations lowering ++ [.give bodyTerm]), doc.IsTidy := by
  rw [forall_mem_docs_clauseBody]
  constructor
  · intro binding hbinding
    have hvalid : Name.isValid binding.name = true := isValid_of_mem_lower h hbinding
    apply isTidy_declaration (Name.newline_notMem_identifier hvalid)
    obtain ⟨shape, -, rfl⟩ := Pattern.exists_shape h
    obtain ⟨form, -, rfl⟩ := List.mem_map.mp hbinding
    exact isTidy_ref solid_subject form.ref
  · exact isTidy_giving hbody

mutual

theorem isTidy_doc {trail : Trail} {e : Expr} {term : Term}
    (h : Yields oneSubject shadowing trail e term) : term.doc.IsTidy := by
  cases h with
  | literal trail value => exact isTidy_text (solid_literal value)
  | var trail valid => exact isTidy_text (solid_identifier valid)
  | list hitems => exact isTidy_enclosed (by decide) (by decide) (isTidy_docs hitems)
  | binop hleft valid hright =>
    rename_i op _ _ _ _
    have hop : '\n' ∉ (" " ++ op.shown ++ " ").toList := by
      simp [newline_notMem_operator valid]
    apply tidies_append (isTidy_doc hleft)
    exact tidies_append (tidies_text hop) (tidies_last (isTidy_doc hright))
  | letIn valid hvalue hbody =>
    apply isTidy_immediate (Stmt.docs_cons_ne_nil _ _)
    rw [Stmt.forall_mem_docs_cons]
    constructor
    · exact isTidy_declaration (Name.newline_notMem_identifier valid) (isTidy_doc hvalue)
    · intro doc hdoc
      rw [List.mem_singleton.mp hdoc]
      exact isTidy_giving (isTidy_doc hbody)
  | apply hfunction hargs =>
    rename_i args functionTerm argTerms
    have hwrapped : (wrapped "(" (Term.docs argTerms) ")").IsTidy :=
      isTidy_enclosed (by decide) (by decide) (isTidy_docs hargs)
    exact tidies_append (isTidy_parenthesized _ (isTidy_doc hfunction)) hwrapped.tidies
  | lambda valid distinct hbody =>
    apply isTidy_arrowDoc _ (isTidy_doc hbody)
    intro param hparam
    obtain ⟨name, hname, rfl⟩ := List.mem_map.mp hparam
    exact solid_identifier (valid name hname)
  | cases hsubject hclauses =>
    apply isTidy_immediate (Stmt.docs_cons_ne_nil _ _)
    rw [Stmt.forall_mem_docs_cons]
    constructor
    · exact isTidy_declaration solid_subject.1 (isTidy_doc hsubject)
    · exact isTidy_stmtDocs hclauses

theorem isTidy_docs {trail : Trail} {index : Nat} {items : List Expr} {terms : List Term}
    (h : YieldsItems oneSubject shadowing trail index items terms) :
    ∀ doc ∈ Term.docs terms, doc.IsTidy := by
  cases h with
  | nil trail index => exact List.forall_mem_nil _
  | cons hitem hrest =>
    rw [Term.docs, List.forall_mem_cons]
    exact ⟨isTidy_doc hitem, isTidy_docs hrest⟩

theorem isTidy_stmtDocs {trail : Trail} {index : Nat} {clauses : List Clause} {stmts : List Stmt}
    (h : YieldsClauses oneSubject shadowing trail index clauses stmts) :
    ∀ doc ∈ Stmt.docs stmts, doc.IsTidy := by
  cases h with
  | failing trail index =>
    intro doc hdoc
    rw [List.mem_singleton.mp hdoc]
    exact isTidy_failure
  | catchAll rest lowered total hbody => exact isTidy_clauseBody lowered (isTidy_doc hbody)
  | guarded lowered hpartial hbody hrest =>
    rename_i pattern body bodyTerm lowering rest stmts
    have htests : lowering.checks.map (·.doc text) ≠ [] :=
      mt List.map_eq_nil_iff.mp (checks_ne_nil hpartial)
    rw [Stmt.forall_mem_docs_cons]
    constructor
    · apply isTidy_conditional htests (isTidy_checks lowered)
      · exact List.ne_nil_of_mem (Stmt.doc_mem_docs List.mem_concat_self)
      · exact isTidy_clauseBody lowered (isTidy_doc hbody)
    · exact isTidy_stmtDocs hrest

end

variable {e : Expr} {settings : Settings} {term : Term}

/-- Does an output go on behind its front without a newline? -/
def GoesOn (output front : List Char) : Prop := ∃ c after, c ≠ '\n' ∧ output = front ++ c :: after

/-- Whatever the width is, no line of the output is empty or ends in a space. So the output goes on
in the same line behind every text that ends in a space: the words that return or declare a value,
and the operators of operations and comparisons. The mark between two checks of a condition ends in
no space; it may end a line. -/
theorem lines_visible (h : (e.emission settings).result = .ok term) :
    (∀ line ∈ (term.render settings.width).toList.splitOn '\n',
      line ≠ [] ∧ line.getLast? ≠ some ' ') ∧
    (∀ t p i m rest, Met settings.width term.doc (.text t) p i m rest →
      t.toList.getLast? = some ' ' →
      GoesOn (term.render settings.width).toList (p.written ++ t.toList)) ∧
    (∀ value p i m rest, Met settings.width term.doc (Stmt.give value).doc p i m rest →
      GoesOn (term.render settings.width).toList (p.written ++ "return ".toList)) ∧
    (∀ identifier value p i m rest,
      Met settings.width term.doc (Stmt.declare identifier value).doc p i m rest →
      GoesOn (term.render settings.width).toList
        (p.written ++ ("let " ++ identifier ++ " = ").toList)) ∧
    ∀ op left right p i m rest,
      Met settings.width term.doc (Term.operation op left right).doc p i m rest →
      ∃ operand, left.doc.Allows operand ∧
        GoesOn (term.render settings.width).toList
          (p.written ++ operand ++ (" " ++ op ++ " ").toList) := by
  have hdoc : term.doc.IsTidy := isTidy_doc (yields_iff.mpr h)
  obtain ⟨htidy, hend⟩ := hdoc.render settings.width
  have htexts : ∀ t p i m rest, Met settings.width term.doc (.text t) p i m rest →
      t.toList.getLast? = some ' ' →
      GoesOn (term.render settings.width).toList (p.written ++ t.toList) :=
    fun _ _ _ _ _ hmet hlast => hdoc.goes_on hmet hlast
  refine ⟨?lines, htexts, ?give, ?declare, ?operation⟩
  case lines =>
    intro line hline
    obtain ⟨c, hlast, hc⟩ := htidy.endsVisibly_line hend line hline
    constructor
    · rintro rfl
      cases hlast
    · intro hspace
      rw [hspace] at hlast
      cases hlast
      exact absurd hc (by decide)
  case give =>
    intro value p i m rest hmet
    have hreturn := htexts _ _ _ _ _ hmet.first (by decide)
    exact hreturn
  case declare =>
    intro identifier value p i m rest hmet
    have hlet : ("let " ++ identifier ++ " = ").toList.getLast? = some ' ' := by
      rw [String.toList_append, List.getLast?_append]
      rfl
    have hname := htexts _ _ _ _ _ hmet.first hlet
    exact hname
  case operation =>
    intro op left right p i m rest hmet
    obtain ⟨column, hsecond⟩ := hmet.second
    have hop : (" " ++ op ++ " ").toList.getLast? = some ' ' := by
      rw [String.toList_append, List.getLast?_append]
      rfl
    exact ⟨_, allows_arrange .., htexts _ _ _ _ _ hsecond.first hop⟩

/-- `let y = 1 + x in [y, y]` -/
def letSum : Expr :=
  let y := Text.ofString "y"
  .letIn y (.binop (Text.ofString "+") (.literal (.int 1)) (.var (Text.ofString "x")))
    (.list [.var y, .var y])

/-- The list is broken into lines, but not between `return` and its bracket. -/
theorem lines_visible_letSum :
    ∃ term value p i m rest,
      (letSum.emission ⟨8, false⟩).result = .ok term ∧
      Met 8 term.doc (Stmt.give value).doc p i m rest ∧
      GoesOn (term.render 8).toList (p.written ++ "return ".toList) ∧
      (∀ line ∈ (term.render 8).toList.splitOn '\n', line ≠ [] ∧ line.getLast? ≠ some ' ') ∧
      term.render 8 =
        "(() => \x7b\n  let y = 1 + x;\n  return [\n    y,\n    y,\n  ];\n\x7d)()" := by
  obtain ⟨term, hterm⟩ : ∃ term, (letSum.emission ⟨8, false⟩).result = .ok term := ⟨_, rfl⟩
  obtain ⟨hlines, -, hgive, -⟩ := lines_visible hterm
  cases hterm
  obtain ⟨p, i, m, rest, hmet⟩ := exists_met 8 (within_immediate (.self) (Stmt.doc_mem_docs
    (List.mem_cons_of_mem _ List.mem_cons_self)))
  exact ⟨_, _, p, i, m, rest, rfl, hmet, hgive _ p i m rest hmet, hlines, by decide +kernel⟩

end Script
end CaseScript
