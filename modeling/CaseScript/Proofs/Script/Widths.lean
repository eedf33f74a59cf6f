import CaseScript.Proofs.Doc.Steady
import CaseScript.Proofs.Name.Identifier
import CaseScript.Proofs.Script.FlatText

/-!
# Scripts at different widths

A width decides where the text of a script is broken into lines, and nothing else.
-/

namespace CaseScript
namespace Script

open Doc Text

theorem steady_comma : comma.Steady := steady_append (steady_text _) steady_space

theorem unspaced_closing {close : Char} (h : isClosing close = true) :
    unspaced [close] = [close] := by
  rcases isClosing_iff.mp h with rfl | rfl <;> decide

/-- The comma that a broken group adds before its closing bracket. -/
theorem steady_lastComma {body : Doc} (hbody : body.Steady) (hfirm : body.EndsFirmly)
    {closing : String} {close : Char} (hclosing : closing.toList = [close])
    (hclose : isClosing close = true) : (concat [body, brk "" ",", text closing]).Steady := by
  obtain ⟨front, c, hfront, hc⟩ := hfirm.unspaced_eq
  have hflat : unspaced (concat [body, brk "" ",", text closing]).flatText.toList =
      unspaced body.flatText.toList ++ [close] := by
    simp [flatText, hclosing, unspaced_closing hclose]
  rintro s ⟨items, _, hitems, ⟨mark, _, hmark, ⟨_, _, rfl, rfl, rfl⟩, rfl⟩, rfl⟩
  have hsame := hbody items hitems
  rw [hflat]
  rcases hmark with rfl | ⟨indent, rfl⟩
  · rw [hclosing, unspaced_append, String.toList_empty, List.nil_append, List.append_nil,
      unspaced_closing hclose]
    exact hsame.append_right [close]
  · have hcomma := hsame.append_right [',', close]
    have hdrop := (interchangeable_lastComma hc hclose).append_left front
    have hwritten : unspaced (items ++ (",".toList ++ newline indent ++ (closing.toList ++ []))) =
        unspaced items ++ [',', close] := by
      simp only [unspaced_append, unspaced_newline, hclosing, List.append_nil,
        unspaced_closing hclose]
      rfl
    rw [hfront] at hcomma
    rw [hwritten, hfront, List.append_assoc]
    exact hcomma.trans (by simpa using hdrop)

/-- Items between delimiters may have a comma after the last item or not. -/
theorem steady_enclosed {opening closing : String} {close : Char}
    (hclosing : closing.toList = [close]) (hclose : isClosing close = true) {items : List Doc}
    (hitems : ∀ item ∈ items, item.Steady) (hfirm : ∀ item ∈ items, item.EndsFirmly) :
    (enclosed opening items closing).Steady := by
  unfold enclosed
  split
  · exact steady_text _
  · rename_i hempty
    have hne : items ≠ [] := by simpa using hempty
    have hbody : (nestIfBroken indentation (softBreak ++ join comma items)).Steady :=
      steady_append steady_softBreak (steady_join steady_comma hitems)
    have hbodyFirm : (nestIfBroken indentation (softBreak ++ join comma items)).EndsFirmly :=
      EndsFirmly.append (EndsFirmly.join hne hfirm) softBreak
    exact steady_append (steady_text _) (steady_lastComma hbody hbodyFirm hclosing hclose)

theorem endsFirmly_enclosed {opening closing : String} {close : Char}
    (hclosing : closing.toList = [close]) (hclose : isClosing close = true) (items : List Doc) :
    (enclosed opening items closing).EndsFirmly := by
  have hfirm : close ≠ ',' ∧ isSpacing close = false := by
    rcases isClosing_iff.mp hclose with rfl | rfl <;> decide
  have hlast : closing.toList.getLast? = some close := by rw [hclosing]; rfl
  exact .of_append (flatText_wrapped opening items closing) hlast hfirm

theorem endsFirmly_wrapped {opening closing : String} {close : Char}
    (hclosing : closing.toList = [close]) (hclose : isClosing close = true) (items : List Doc) :
    (wrapped opening items closing).EndsFirmly := endsFirmly_enclosed hclosing hclose items

theorem steady_declaration (identifier : String) {value : Doc} (h : value.Steady) :
    (declaration identifier value).Steady :=
  steady_append (steady_text _) (steady_append h (steady_append (steady_text _) steady_empty))

theorem steady_giving {value : Doc} (h : value.Steady) : (giving value).Steady :=
  steady_append (steady_text _) (steady_append h (steady_append (steady_text _) steady_empty))

theorem steady_indented {stmts : List Doc} (h : ∀ stmt ∈ stmts, stmt.Steady) :
    (indented stmts).Steady :=
  steady_append steady_line (steady_join steady_line h)

theorem steady_immediate {stmts : List Doc} (h : ∀ stmt ∈ stmts, stmt.Steady) :
    (immediate stmts).Steady := by
  refine steady_concat _ ?_
  simp only [List.forall_mem_cons]
  exact ⟨steady_text _, steady_indented h, steady_line, steady_text _, by simp⟩

theorem endsFirmly_immediate (stmts : List Doc) : (immediate stmts).EndsFirmly :=
  .of_append (flatText_immediate stmts) (c := ')') (by decide) (by decide)

theorem steady_conditional {tests body : List Doc} (htests : ∀ test ∈ tests, test.Steady)
    (hbody : ∀ stmt ∈ body, stmt.Steady) : (conditional tests body).Steady := by
  have hmark : conjunctionMark.Steady := steady_append (steady_text _) steady_space
  refine steady_append (steady_concat [_, _, _, _] ?_) (steady_concat _ ?_)
  · simp only [List.forall_mem_cons]
    exact ⟨steady_text _, steady_append steady_softBreak (steady_join hmark htests),
      steady_softBreak, steady_text _, by simp⟩
  · simp only [List.forall_mem_cons]
    exact ⟨steady_indented hbody, steady_line, steady_text _, by simp⟩

theorem steady_arrowDoc {params : List String} {body : Doc} (hbody : body.Steady)
    (hfirm : ∀ param ∈ params, (text param).EndsFirmly) : (arrowDoc params body).Steady := by
  refine steady_concat [_, _, _] ?_
  simp only [List.forall_mem_cons]
  refine ⟨steady_enclosed rfl rfl ?_ ?_, steady_text _, steady_append steady_space hbody, by simp⟩
  · simp [steady_text]
  · simpa using hfirm

theorem endsFirmly_arrowDoc (params : List String) {body : Doc} (h : body.EndsFirmly) :
    (arrowDoc params body).EndsFirmly := by
  obtain ⟨c, hlast, hc⟩ := h
  exact .of_append (flatText_arrowDoc params body) hlast hc

theorem steady_parenthesized (needed : Bool) {doc : Doc} (h : doc.Steady) :
    (parenthesized needed doc).Steady := by
  unfold parenthesized
  split
  · have hclose := steady_append (steady_text ")") steady_empty
    exact steady_append (steady_text _) (steady_append h hclose)
  · exact h

theorem steady_ref (ref : Ref String) : (ref.doc text).Steady := by
  induction ref with
  | subject s => exact steady_text s
  | item list index ih => exact steady_append ih (steady_text _)
  | rest list start ih => exact steady_append ih (steady_text _)

theorem steady_check (check : Check String) : (check.doc text).Steady := by
  have hmark : conjunctionMark.Steady := steady_append (steady_text _) steady_space
  cases check with
  | length ref count atLeast =>
    refine steady_concat _ ?_
    simp only [List.forall_mem_cons]
    exact ⟨steady_text _, steady_ref ref, steady_text _, hmark, steady_ref ref, steady_text _,
      steady_text _, steady_text _, by simp⟩
  | equals ref literal =>
    refine steady_concat _ ?_
    simp only [List.forall_mem_cons]
    exact ⟨steady_ref ref, steady_text _, steady_text _, by simp⟩

theorem firm_of_isPart {c : Char} (h : Name.isPart c = true) : c ≠ ',' ∧ isSpacing c = false := by
  refine ⟨?_, ?_⟩
  · rintro rfl
    exact absurd h (by decide)
  · simp only [isSpacing, Bool.or_eq_false_iff, beq_eq_false_iff_ne]
    refine ⟨?_, ?_⟩ <;> rintro rfl <;> exact absurd h (by decide)

theorem endsFirmly_toString (n : Nat) : (text (toString n)).EndsFirmly := by
  obtain ⟨c, hlast⟩ : ∃ c, (Nat.toDigits 10 n).getLast? = some c :=
    Option.isSome_iff_exists.mp (by simp [Nat.toDigits_ne_nil])
  have hdigit : c.isDigit = true :=
    Nat.isDigit_of_mem_toDigits (by decide) (by decide) (List.mem_of_getLast? hlast)
  refine ⟨c, ?_, firm_of_isPart (by simp [Name.isPart, Char.isAlphanum, hdigit])⟩
  rw [flatText, Nat.toString_eq_ofList_toDigits, String.toList_ofList, hlast]

theorem endsFirmly_literal (value : Literal) : (text value.written).EndsFirmly := by
  cases value with
  | int n =>
    rw [Literal.written_int]
    split
    · exact endsFirmly_toString _
    · obtain ⟨c, hlast, hc⟩ := endsFirmly_toString (-n).toNat
      exact .of_append rfl hlast hc
  | string value =>
    refine ⟨'"', ?_, by decide⟩
    rw [flatText, Literal.written, stringLiteral, String.toList_ofList, List.getLast?_concat]
  | bool value => cases value <;> exact ⟨'e', by decide, by decide⟩

theorem endsFirmly_identifier {name : Text} (h : Name.isValid name = true) :
    (text (Name.identifier name)).EndsFirmly := by
  rcases Name.toList_identifier name with ⟨-, hlist⟩ | ⟨-, hlist⟩
  · obtain ⟨c, hlast⟩ : ∃ c, name.shown.toList.getLast? = some c :=
      Option.isSome_iff_exists.mp (by simp [Name.shown_ne_empty h])
    have hpart := Name.isPart_of_mem_shown h c (List.mem_of_getLast? hlast)
    exact ⟨c, by rw [flatText, hlist, hlast], firm_of_isPart hpart⟩
  · exact ⟨'$', by rw [flatText, hlist, List.getLast?_concat], by decide⟩

variable {subjects : Trail → String} {shadowing : Bool}

theorem steady_clauseBody (lowering : Lowering String) {bodyTerm : Term}
    (h : bodyTerm.doc.Steady) :
    ∀ doc ∈ Stmt.docs (declarations lowering ++ [.give bodyTerm]), doc.Steady := by
  rw [forall_mem_docs_clauseBody]
  exact ⟨fun binding _ => steady_declaration _ (steady_ref binding.ref), steady_giving h⟩

mutual

theorem steady_doc {trail : Trail} {e : Expr} {term : Term}
    (h : Yields subjects shadowing trail e term) : term.doc.Steady ∧ term.doc.EndsFirmly := by
  cases h with
  | literal trail value => exact ⟨steady_text _, endsFirmly_literal value⟩
  | var trail valid => exact ⟨steady_text _, endsFirmly_identifier valid⟩
  | list hitems =>
    have hdocs := steady_docs hitems
    exact ⟨steady_enclosed rfl rfl (fun doc hdoc => (hdocs doc hdoc).1)
      fun doc hdoc => (hdocs doc hdoc).2, endsFirmly_wrapped rfl rfl _⟩
  | binop hleft valid hright =>
    have hleftDoc := (steady_doc hleft).1
    obtain ⟨hrightDoc, hfirm⟩ := steady_doc hright
    refine ⟨?_, ?_⟩
    · exact steady_append hleftDoc (steady_append (steady_text _)
        (steady_append hrightDoc steady_empty))
    · obtain ⟨c, hlast, hc⟩ := hfirm
      have hlastDoc : (append _ empty).EndsFirmly := ⟨c, by simpa [flatText] using hlast, hc⟩
      exact (hlastDoc.append _).append _
  | letIn valid hvalue hbody =>
    have hvalueDoc := (steady_doc hvalue).1
    have hbodyDoc := (steady_doc hbody).1
    refine ⟨steady_immediate ?_, endsFirmly_immediate _⟩
    simp only [Stmt.docs, Stmt.doc, List.forall_mem_cons]
    exact ⟨steady_declaration _ hvalueDoc, steady_giving hbodyDoc, by simp⟩
  | apply hfunction hargs =>
    have hfunctionDoc := (steady_doc hfunction).1
    have hdocs := steady_docs hargs
    refine ⟨steady_append (steady_parenthesized _ hfunctionDoc) ?_,
      (endsFirmly_wrapped rfl rfl _).append _⟩
    exact steady_enclosed rfl rfl (fun doc hdoc => (hdocs doc hdoc).1)
      fun doc hdoc => (hdocs doc hdoc).2
  | lambda valid distinct hbody =>
    obtain ⟨hbodyDoc, hfirm⟩ := steady_doc hbody
    refine ⟨steady_arrowDoc hbodyDoc fun param hparam => ?_, endsFirmly_arrowDoc _ hfirm⟩
    obtain ⟨name, hname, rfl⟩ := List.mem_map.mp hparam
    exact endsFirmly_identifier (valid name hname)
  | cases hsubject hclauses =>
    have hsubjectDoc := (steady_doc hsubject).1
    have hstmts := steady_stmtDocs hclauses
    refine ⟨steady_immediate ?_, endsFirmly_immediate _⟩
    simp only [Stmt.docs, Stmt.doc, List.forall_mem_cons]
    exact ⟨steady_declaration _ hsubjectDoc, hstmts⟩

theorem steady_docs {trail : Trail} {index : Nat} {items : List Expr} {terms : List Term}
    (h : YieldsItems subjects shadowing trail index items terms) :
    ∀ doc ∈ Term.docs terms, doc.Steady ∧ doc.EndsFirmly := by
  cases h with
  | nil trail index => simp [Term.docs]
  | cons hitem hrest =>
    rw [Term.docs, List.forall_mem_cons]
    exact ⟨steady_doc hitem, steady_docs hrest⟩

theorem steady_stmtDocs {trail : Trail} {index : Nat} {clauses : List Clause}
    {stmts : List Stmt} (h : YieldsClauses subjects shadowing trail index clauses stmts) :
    ∀ doc ∈ Stmt.docs stmts, doc.Steady := by
  cases h with
  | failing trail index =>
    simp only [Stmt.docs, Stmt.doc, List.forall_mem_cons]
    exact ⟨steady_text _, by simp⟩
  | catchAll rest lowered total hbody => exact steady_clauseBody _ (steady_doc hbody).1
  | guarded lowered hpartial hbody hrest =>
    rename_i pattern body bodyTerm lowering rest stmts
    rw [Stmt.docs, Stmt.doc, List.forall_mem_cons]
    refine ⟨steady_conditional ?_ (steady_clauseBody _ (steady_doc hbody).1),
      steady_stmtDocs hrest⟩
    intro test htest
    obtain ⟨check, -, rfl⟩ := List.mem_map.mp htest
    exact steady_check check

end

/-- The width changes only the layout. At any two widths, be they positive or not, the emission of a
tree ends in the same fault, or in two texts that are equal without their spaces, their newlines and
the commas that then stand right before a closing bracket. -/
theorem tightened_script_eq (e : Expr) (shadowing : Bool) (width width' : Int) :
    (e.script ⟨width, shadowing⟩).map tightened = (e.script ⟨width', shadowing⟩).map tightened := by
  have hsame : e.emission ⟨width, shadowing⟩ = e.emission ⟨width', shadowing⟩ := rfl
  rw [Expr.script, Expr.script, ← hsame]
  cases hresult : (e.emission ⟨width, shadowing⟩).result with
  | error fault => rfl
  | ok term =>
    obtain ⟨hsteady, -⟩ := steady_doc (yields_iff.mpr hresult)
    have hfirst := (hsteady _ (allows_render width term.doc) []).2
    have hsecond := (hsteady _ (allows_render width' term.doc) []).2
    rw [List.append_nil] at hfirst hsecond
    exact congrArg Except.ok (hfirst.trans hsecond.symm)

end Script
end CaseScript
