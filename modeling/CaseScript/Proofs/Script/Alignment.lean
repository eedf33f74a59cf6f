import CaseScript.Proofs.Doc.Variants
import CaseScript.Proofs.Script.Conditions

/-!
# The alignment of blocks

A block ends on a line that is indented by two less than its statements. The line that it begins on
is indented as the last one, unless that line goes on behind the body of a function. A conditional
statement is aligned in any case, since it begins a line of its own.
-/

namespace CaseScript
namespace Script

open Doc Text

/-- An opening, statements on lines of their own, and a closing line. -/
def framed (i : Int) (opening : List Char) (lines : List (List Char)) (closing : List Char) :
    List Char :=
  opening ++ newline (i + 2) ++ (newline (i + 2)).intercalate lines ++ newline i ++ closing

/-- Is each text a way to write the statement, and does it begin with something visible? -/
def StmtLines : List Stmt → List (List Char) → Prop :=
  List.Forall₂ fun stmt s => stmt.doc.Allows s ∧ ∃ c rest, s = c :: rest ∧ c ≠ ' ' ∧ c ≠ '\n'

/-- Every statement begins with a keyword. -/
theorem exists_cons_of_allows {stmt : Stmt} {s : List Char} (h : stmt.doc.Allows s) :
    ∃ c rest, s = c :: rest ∧ c ≠ ' ' ∧ c ≠ '\n' := by
  cases stmt with
  | declare identifier value =>
    obtain ⟨front, back, rfl, -, rfl⟩ := h
    rw [String.toList_append, String.toList_append]
    exact ⟨'l', _, rfl, by decide, by decide⟩
  | give value =>
    obtain ⟨front, back, rfl, -, rfl⟩ := h
    exact ⟨'r', _, rfl, by decide, by decide⟩
  | guarded checks body =>
    obtain ⟨front, back, ⟨opening, condition, rfl, -, rfl⟩, -, rfl⟩ := h
    exact ⟨'i', _, rfl, by decide, by decide⟩
  | fail =>
    obtain rfl := h
    exact ⟨'t', _, rfl, by decide, by decide⟩

theorem stmtLines_of_docs {body : List Stmt} {lines : List (List Char)}
    (h : List.Forall₂ Allows (Stmt.docs body) lines) : StmtLines body lines := by
  induction body generalizing lines with
  | nil =>
    cases h
    exact .nil
  | cons stmt rest ih =>
    cases h with
    | cons hstmt hrest => exact .cons ⟨hstmt, exists_cons_of_allows hstmt⟩ (ih hrest)

section Arrange

variable (width i : Int) (m : Mode) (following : Following) (c : Int)

theorem arrange_join_line (docs : List Doc) :
    ∃ lines, ((join line docs).arrange width i m following c).1 = (newline i).intercalate lines ∧
      List.Forall₂ Allows docs lines := by
  induction docs generalizing c with
  | nil => exact ⟨[], rfl, .nil⟩
  | cons doc rest ih =>
    cases rest with
    | nil =>
      refine ⟨[(doc.arrange width i m ((m, empty) :: following) c).1], ?_,
        .cons (allows_arrange ..) .nil⟩
      simp [join, arrange]
    | cons next rest =>
      have hjoin : join line (doc :: next :: rest) =
          append doc (append line (join line (next :: rest))) := rfl
      obtain ⟨lines, hlines, hallows⟩ := ih i
      have hne : lines ≠ [] := by
        rintro rfl
        cases hallows
      have hfirst := allows_arrange width i m
        ((m, append line (join line (next :: rest))) :: following) c doc
      refine ⟨_ :: lines, ?_, .cons hfirst hallows⟩
      rw [hjoin, arrange, List.intercalate_cons_of_ne_nil hne, ← hlines, List.append_assoc]
      rfl

/-- The statements of a block are laid out on lines of their own, two columns further in than the
closing line. -/
theorem arrange_framed (opening : Doc) (body : List Stmt) (closing : String) :
    ∃ lines, StmtLines body lines ∧
      ((concat [opening, indented (Stmt.docs body), line, text closing]).arrange width i m following
          c).1 =
        framed i (opening.arrange width i m
          ((m, concat [indented (Stmt.docs body), line, text closing]) :: following) c).1 lines
          closing.toList := by
  obtain ⟨lines, hlines, hallows⟩ := arrange_join_line width (i + 2) m
    ((m, concat [line, text closing]) :: following) (i + 2) (Stmt.docs body)
  refine ⟨lines, stmtLines_of_docs hallows, ?_⟩
  rw [framed, ← hlines]
  simp only [concat_cons, concat_nil, append_eq, indented, arrange, List.append_assoc,
    List.append_nil]
  rfl

end Arrange

/-! ## Blocks of scripts -/

/-- A condition ends on a line that is indented as the line on which it begins. -/
theorem exists_condition (width i : Int) (m : Mode) {checks : List (Check String)}
    (hnewline : '\n' ∉ conditionLine (writtenTests checks)) :
    ∃ condition,
      (if m = .flat ∨ i + (conditionLine (writtenTests checks)).length ≤ width then
          conditionLine (writtenTests checks)
        else conditionLines i (writtenTests checks)) =
        "if (".toList ++ condition ++ ") \x7b".toList ∧
      ∀ s c, LineStart i s c → 0 ≤ i →
        margin (s ++ ("if (".toList ++ condition ++ ") \x7b".toList)) = i := by
  split
  · refine ⟨_, rfl, fun s c hs hi => ?_⟩
    have hvisible : Visible (conditionLine (writtenTests checks)) :=
      ⟨hnewline, 'i', _, rfl, by decide⟩
    exact ((hs.level (P := True) hi).visible hvisible 0).level.2 trivial
  · refine ⟨newline (i + 2) ++
      (" &&".toList ++ newline (i + 2)).intercalate (writtenTests checks) ++ newline i, ?_,
      fun s c _ hi => ?_⟩
    · delta conditionLines
      simp only [List.append_assoc]
    · have hvisible : Visible ") \x7b".toList := ⟨by decide, ')', _, rfl, by decide⟩
      simp only [← List.append_assoc]
      exact ((level_newline (P := True) hi _ 0).visible hvisible 0).level.2 trivial

variable {settings : Settings} {e : Expr} {term : Term}

/-- Every block of a script is met, and it is laid out as a frame whose statements are two columns
further in than its last line. The line on which it begins is never to the left of its last line,
and it is right above it if nothing in the tree goes on behind the body of a function. The first and
the last line of a condition and the last line of its statements are always right above one another.
-/
theorem blocks_aligned (h : (e.emission settings).result = .ok term) :
    (∀ s ∈ e.subexprs, ∃ place part p i m rest,
      (ofExpr settings.allowShadowing place s).result = .ok part ∧
      Met settings.width term.doc part.doc p i m rest) ∧
    (∀ body p i m rest, Met settings.width term.doc (Term.block body).doc p i m rest →
      0 ≤ i ∧ i ≤ margin (p.written ++ "(() => \x7b".toList) ∧
      ((∀ s ∈ e.subexprs, s.continuesFunction = false) →
        margin (p.written ++ "(() => \x7b".toList) = i) ∧
      ∃ lines after, StmtLines body lines ∧
        (term.render settings.width).toList =
          p.written ++ framed i "(() => \x7b".toList lines "\x7d)()".toList ++ after) ∧
    ∀ checks body p i m rest,
      Met settings.width term.doc (Stmt.guarded checks body).doc p i m rest →
      0 ≤ i ∧ margin (p.written ++ "if (".toList) = i ∧
      ∃ condition lines after, StmtLines body lines ∧
        margin (p.written ++ ("if (".toList ++ condition ++ ") \x7b".toList)) = i ∧
        (term.render settings.width).toList =
          p.written ++ framed i ("if (".toList ++ condition ++ ") \x7b".toList) lines
            "\x7d".toList ++ after := by
  refine ⟨fun s hs => ?_, fun body p i m rest hmet => ?_, fun checks body p i m rest hmet => ?_⟩
  · obtain ⟨place, part, hpart, hwithin⟩ := exists_part_of_mem (yields_iff.mpr h) hs
    obtain ⟨p, i, m, rest, hmet⟩ := exists_met settings.width hwithin
    exact ⟨place, part, p, i, m, rest, yields_iff.mp hpart, hmet⟩
  · obtain ⟨hi, hlevel⟩ := (alignment_of_met (yields_iff.mpr h) hmet rfl).1 rfl
    have hvisible : Visible "(() => \x7b".toList := ⟨by decide, '(', _, rfl, by decide⟩
    obtain ⟨hle, heq⟩ := (hlevel.visible hvisible 0).level
    obtain ⟨lines, hlines, harrange⟩ := arrange_framed settings.width i m (following rest) p.column
      (text "(() => \x7b") body "\x7d)()"
    have hrender := hmet.render_eq
    rw [Term.doc, immediate, harrange] at hrender
    exact ⟨hi, hle, heq, lines, _, hlines, hrender⟩
  · obtain ⟨hi, hstart, hnewline⟩ := start_of_guarded h hmet
    obtain ⟨condition, hcondition, hmargin⟩ := exists_condition settings.width i m hnewline
    obtain ⟨lines, hlines, harrange⟩ := arrange_framed settings.width i m (following rest) p.column
      (group (header (checks.map (·.doc text)))) body "\x7d"
    have hvisible : Visible "if (".toList := ⟨by decide, 'i', _, rfl, by decide⟩
    have hif := ((hstart.level (P := True) hi).visible hvisible 0).level.2 trivial
    have hrender := hmet.render_eq
    have hdoc : (Stmt.guarded checks body).doc = concat [group (header (checks.map (·.doc text))),
        indented (Stmt.docs body), line, text "\x7d"] := rfl
    rw [hdoc, harrange, hstart.1, arrange_condition settings.width i m rfl, hcondition] at hrender
    exact ⟨hi, hif, condition, lines, _, hlines, hmargin _ _ hstart hi, hrender⟩

/-- `let y = 1 in y` -/
def letOne : Expr :=
  .letIn (Text.ofString "y") (.literal (.int 1)) (.var (Text.ofString "y"))

/-- In `[let y = 1 in y]` the list is flat, and the block is aligned with the bracket before it. -/
theorem blocks_aligned_letInList :
    ∃ term body p i m rest,
      ((Expr.list [letOne]).emission ⟨20, false⟩).result = .ok term ∧
      (∀ s ∈ (Expr.list [letOne]).subexprs, s.continuesFunction = false) ∧
      Met 20 term.doc (Term.block body).doc p i m rest ∧
      margin (p.written ++ "(() => \x7b".toList) = i ∧
      (∃ lines after, StmtLines body lines ∧
        (term.render 20).toList =
          p.written ++ framed i "(() => \x7b".toList lines "\x7d)()".toList ++ after) ∧
      term.render 20 = "[(() => \x7b\n  let y = 1;\n  return y;\n\x7d)()]" := by
  obtain ⟨term, hterm⟩ :
      ∃ term, ((Expr.list [letOne]).emission ⟨20, false⟩).result = .ok term := ⟨_, rfl⟩
  have hstraight : ∀ s ∈ (Expr.list [letOne]).subexprs, s.continuesFunction = false := by
    simp [letOne, Expr.subexprs, Expr.itemSubexprs, Expr.continuesFunction]
  obtain ⟨hparts, hblocks, -⟩ := blocks_aligned hterm
  obtain ⟨place, part, p, i, m, rest, hresult, hmet⟩ :=
    hparts letOne (by simp [letOne, Expr.subexprs, Expr.itemSubexprs])
  cases hresult
  obtain ⟨-, -, hmargin, hframed⟩ := hblocks _ p i m rest hmet
  cases hterm
  exact ⟨_, _, p, i, m, rest, rfl, hstraight, hmet, hmargin hstraight, hframed, by decide +kernel⟩

/-- Where a call goes on behind a broken function, a block begins two columns to the right of the
line that it ends on. -/
example :
    let function : Expr := .lambda [Text.ofString "first", Text.ofString "second"]
      (.var (Text.ofString "first"))
    ((Expr.apply function [letOne]).script ⟨20, false⟩).toOption = some
      ("((\n  first,\n  second,\n) =>\n" ++
        "  first)((() => \x7b\n  let y = 1;\n  return y;\n\x7d)())") := by
  decide +kernel

end Script
end CaseScript
