import CaseScript.Proofs.Script.Code
import CaseScript.Proofs.Script.Levels
import CaseScript.Proofs.Script.Parts

/-!
# The layout of conditions

The condition of a clause is a group that begins a line of its own. So it is kept on this line if it
fits, with all that stands on the line, and broken otherwise; but a group around it that was found
to fit makes it flat in any case, however long its line.
-/

namespace CaseScript
namespace Script

open Doc Text

/-! ## The text of a condition -/

/-- A condition on one line. -/
def conditionLine (tests : List (List Char)) : List Char :=
  "if (".toList ++ " && ".toList.intercalate tests ++ ") \x7b".toList

/-- A condition with a line for every test. -/
def conditionLines (i : Int) (tests : List (List Char)) : List Char :=
  "if (".toList ++ newline (i + 2) ++ (" &&".toList ++ newline (i + 2)).intercalate tests ++
    newline i ++ ") \x7b".toList

/-- What stands between two tests of a condition. -/
def joint (i : Int) : Mode → List Char
  | .flat => " && ".toList
  | .broken => " &&".toList ++ newline i

/-- The tests of several checks, as they are written. -/
def writtenTests (checks : List (Check String)) : List (List Char) :=
  (checks.flatMap (Check.tests .name)).map fun test => test.written.toList

theorem writtenTests_cons (check : Check String) (checks : List (Check String)) :
    writtenTests (check :: checks) = writtenTests [check] ++ writtenTests checks := by
  simp [writtenTests]

theorem writtenTests_ne_nil {checks : List (Check String)} (h : checks ≠ []) :
    writtenTests checks ≠ [] := by
  obtain ⟨check, rest, rfl⟩ := List.exists_cons_of_ne_nil h
  simp [writtenTests, Check.tests_ne_nil]

theorem writtenTests_length (ref : Ref String) (count : Nat) (atLeast : Bool) :
    writtenTests [.length ref count atLeast] =
      ["Array.isArray(".toList ++ (ref.code .name).written.toList ++ ")".toList,
        (ref.code .name).written.toList ++ ".length".toList ++
          (if atLeast then " >= " else " === ").toList ++ (toString (count : Int)).toList] := by
  have harray : "Array.isArray(".toList = ("Array" ++ "." ++ "isArray" ++ "(").toList := by decide
  have hlength : ".length".toList = ("." ++ "length").toList := by decide
  have hequal : " === ".toList = (" " ++ "===" ++ " ").toList := by decide
  have hleast : " >= ".toList = (" " ++ ">=" ++ " ").toList := by decide
  cases atLeast <;>
    simp only [writtenTests, Check.tests, List.flatMap_cons, List.flatMap_nil, List.map_cons,
      List.map_nil, List.append_nil, Js.Expression.written, Js.Expression.writtenAll,
      Literal.written, String.intercalate_singleton, harray, hlength, hequal, hleast,
      String.toList_append, List.append_assoc, if_true, Bool.false_eq_true, if_false]

theorem writtenTests_equals (ref : Ref String) (literal : Literal) :
    writtenTests [.equals ref literal] =
      [(ref.code .name).written.toList ++ " === ".toList ++ literal.written.toList] := by
  have hequal : " === ".toList = (" " ++ "===" ++ " ").toList := by decide
  simp only [writtenTests, Check.tests, List.flatMap_cons, List.flatMap_nil, List.map_cons,
    List.map_nil, List.append_nil, Js.Expression.written, hequal, String.toList_append,
    List.append_assoc]

theorem intercalate_append {separator : List Char} {s t : List (List Char)} (hs : s ≠ [])
    (ht : t ≠ []) :
    separator.intercalate (s ++ t) =
      separator.intercalate s ++ separator ++ separator.intercalate t := by
  induction s with
  | nil => exact absurd rfl hs
  | cons first rest ih =>
    by_cases hrest : rest = []
    · simp [hrest, List.intercalate_cons_of_ne_nil ht]
    · simp [List.intercalate_cons_of_ne_nil, hrest, ih hrest, List.append_assoc]

section Arrange

variable (width i : Int) (m : Mode) (following : Following) (c : Int)

theorem arrange_conjunctionMark :
    (conjunctionMark.arrange width i m following c).1 = joint i m := by
  cases m <;> rfl

theorem arrange_ref (ref : Ref String) :
    ((ref.doc text).arrange width i m following c).1 = (ref.code .name).written.toList := by
  have hflat : (ref.doc text).flatText = (ref.code .name).written := ref.flatText_doc fun _ => rfl
  rw [← hflat]
  clear hflat
  induction ref generalizing following c with
  | subject s => rfl
  | item list index ih | rest list start ih =>
    simp only [Ref.doc, append_eq, arrange, flatText, String.toList_append, ih]

/-- The only breaks of a check are between its tests. -/
theorem arrange_check (check : Check String) :
    ((check.doc text).arrange width i m following c).1 =
      (joint i m).intercalate (writtenTests [check]) := by
  cases check with
  | length ref count atLeast =>
    rw [writtenTests_length, List.intercalate_cons_cons, List.intercalate_singleton]
    simp only [Check.doc, lengthTest, concat_cons, concat_nil, arrange, arrange_conjunctionMark,
      arrange_ref, List.append_assoc, List.append_nil]
  | equals ref literal =>
    rw [writtenTests_equals, List.intercalate_singleton]
    simp only [Check.doc, equalityTest, concat_cons, concat_nil, arrange, arrange_ref,
      List.append_assoc, List.append_nil]

theorem arrange_conjunction (checks : List (Check String)) :
    ((conjunction (checks.map (·.doc text))).arrange width i m following c).1 =
      (joint i m).intercalate (writtenTests checks) := by
  induction checks generalizing following c with
  | nil => rfl
  | cons check rest ih =>
    cases rest with
    | nil =>
      have hcheck := arrange_check width i m ((m, empty) :: following) c check
      simpa [conjunction, join, arrange] using hcheck
    | cons next rest =>
      have hjoin : conjunction ((check :: next :: rest).map (·.doc text)) =
          append (check.doc text) (append conjunctionMark
            (conjunction ((next :: rest).map (·.doc text)))) := rfl
      rw [hjoin, writtenTests_cons,
        intercalate_append (writtenTests_ne_nil (List.cons_ne_nil check []))
          (writtenTests_ne_nil (List.cons_ne_nil next rest)), arrange, arrange]
      simp only [arrange_check, arrange_conjunctionMark, ih, List.append_assoc]

/-- In a flat group a condition is on one line, and in a broken one each of its tests is. -/
theorem arrange_header (checks : List (Check String)) :
    ((header (checks.map (·.doc text))).arrange width i m following c).1 =
      match m with
      | .flat => conditionLine (writtenTests checks)
      | .broken => conditionLines i (writtenTests checks) := by
  cases m with
  | flat =>
    delta conditionLine
    simp only [header, concat_cons, concat_nil, append_eq, softBreak, arrange, arrange_conjunction,
      String.toList_empty, List.nil_append, List.append_nil, joint, List.append_assoc]
  | broken =>
    delta conditionLines
    simp only [header, concat_cons, concat_nil, append_eq, softBreak, arrange, arrange_conjunction,
      String.toList_empty, List.nil_append, List.append_nil, joint, indentation, List.append_assoc]

end Arrange

theorem flatText_header (checks : List (Check String)) :
    (header (checks.map (·.doc text))).flatText.toList = conditionLine (writtenTests checks) := by
  have hlineless : (header (checks.map (·.doc text))).Lineless :=
    lineless_header (List.forall_mem_map.mpr fun check _ => lineless_check check)
  rw [← arrange_flat hlineless 0 0 [] 0, arrange_header]

/-- A condition at the start of a line and in front of a newline has the line to itself. -/
theorem arrange_condition (width i : Int) (m : Mode) {following : Following}
    (hfollowing : leadAll following = []) (checks : List (Check String)) :
    ((group (header (checks.map (·.doc text)))).arrange width i m following i).1 =
      if m = .flat ∨ i + (conditionLine (writtenTests checks)).length ≤ width then
        conditionLine (writtenTests checks)
      else conditionLines i (writtenTests checks) := by
  cases m with
  | flat =>
    rw [if_pos (.inl rfl), arrange]
    exact arrange_header width i .flat following i checks
  | broken =>
    have hlineless : (header (checks.map (·.doc text))).Lineless :=
      lineless_header (List.forall_mem_map.mpr fun check _ => lineless_check check)
    have hfits : (header (checks.map (·.doc text))).Fits width i following ↔
        i + (conditionLine (writtenTests checks)).length ≤ width := by
      rw [Fits, leadAll, hfollowing, lead_flat hlineless, flatText_header, List.append_nil]
      omega
    simp only [arrange, hfits, reduceCtorEq, false_or]
    split
    · exact arrange_header width i .flat following i checks
    · exact arrange_header width i .broken following i checks

/-! ## Conditions of scripts -/

variable {settings : Settings} {e : Expr} {term : Term}

/-- What the layout has come to where it comes to a condition. -/
theorem start_of_guarded (h : (e.emission settings).result = .ok term) {width : Int}
    {checks : List (Check String)} {body : List Stmt} {p : Progress} {i : Int} {m : Mode}
    {rest : List Pending} (hmet : Met width term.doc (Stmt.guarded checks body).doc p i m rest) :
    0 ≤ i ∧ LineStart i p.written p.column ∧ '\n' ∉ conditionLine (writtenTests checks) := by
  have hnoted := (alignment_of_met (yields_iff.mpr h) hmet rfl).2
    (header (checks.map (·.doc text))) rfl
  rw [flatText_header] at hnoted
  exact hnoted

/-- A conditional statement begins with its condition and goes on in a line further in. -/
theorem arrange_guarded (width i : Int) (m : Mode) (following : Following)
    (checks : List (Check String)) (body : List Stmt) :
    ∃ after, ((Stmt.guarded checks body).doc.arrange width i m following i).1 =
      (if m = .flat ∨ i + (conditionLine (writtenTests checks)).length ≤ width then
          conditionLine (writtenTests checks)
        else conditionLines i (writtenTests checks)) ++ newline (i + 2) ++ after := by
  have hdoc : (Stmt.guarded checks body).doc =
      append (group (header (checks.map (·.doc text))))
        (append (indented (Stmt.docs body)) (append line (append (text "\x7d") empty))) := rfl
  have hlead : leadAll ((m, append (indented (Stmt.docs body))
      (append line (append (text "\x7d") empty))) :: following) = [] := rfl
  rw [hdoc, arrange, arrange_condition width i m hlead]
  simp only [indented, append_eq, arrange, List.append_assoc]
  exact ⟨_, rfl⟩

/-- The layout comes to the statements of every match in a tree. -/
theorem exists_met_of_cases (h : (e.emission settings).result = .ok term) {subject : Expr}
    {clauses : List Clause} (hmem : .cases subject clauses ∈ e.subexprs) (width : Int) :
    ∃ place value stmts,
      (ofExpr settings.allowShadowing place (.cases subject clauses)).result =
        .ok (.block (.declare Name.subject value :: stmts)) ∧
      ∀ stmt ∈ stmts, ∃ p i m rest, Met width term.doc stmt.doc p i m rest := by
  obtain ⟨place, part, hpart, hwithin⟩ := exists_part_of_mem (yields_iff.mpr h) hmem
  have hresult := yields_iff.mp hpart
  cases hpart with
  | cases hsubject hclauses =>
    rename_i value stmts
    refine ⟨place, value, stmts, hresult, fun stmt hstmt => ?_⟩
    have hstmtDoc := Stmt.doc_mem_docs (List.mem_cons_of_mem (.declare Name.subject value) hstmt)
    exact exists_met width ((within_immediate .self hstmtDoc).trans hwithin)

/-- Each condition begins a line of its own and could stand on it. It is kept on the line if the
line is not too long, or else if a group around the condition was made flat; such a group was found
to fit by the text in front of its first newline. Otherwise the condition is broken at every place.
-/
theorem condition_layout (h : (e.emission settings).result = .ok term) :
    (∀ subject clauses, .cases subject clauses ∈ e.subexprs →
      ∃ place value stmts,
        (ofExpr settings.allowShadowing place (.cases subject clauses)).result =
          .ok (.block (.declare Name.subject value :: stmts)) ∧
        ∀ stmt ∈ stmts, ∃ p i m rest, Met settings.width term.doc stmt.doc p i m rest) ∧
    ∀ checks body p i m rest,
      Met settings.width term.doc (Stmt.guarded checks body).doc p i m rest →
      0 ≤ i ∧ '\n' ∉ conditionLine (writtenTests checks) ∧
      (∃ before after, p.written = before ++ newline i ∧
        (term.render settings.width).toList =
          before ++ newline i ++
            (if m = .flat ∨
                i + (conditionLine (writtenTests checks)).length ≤ settings.width then
              conditionLine (writtenTests checks)
            else conditionLines i (writtenTests checks)) ++ newline (i + 2) ++ after) ∧
      (m = .flat → InFlatGroup settings.width term.doc p rest) := by
  refine ⟨fun subject clauses hmem => exists_met_of_cases h hmem settings.width, ?_⟩
  intro checks body p i m rest hmet
  obtain ⟨hi, ⟨hcolumn, before, hwritten⟩, hnewline⟩ := start_of_guarded h hmet
  obtain ⟨after, hafter⟩ :=
    arrange_guarded settings.width i m (following rest) checks body
  refine ⟨hi, hnewline, ?_, ?_⟩
  · have hrender := hmet.render_eq
    rw [hcolumn, hafter, hwritten] at hrender
    simp only [← List.append_assoc] at hrender
    rw [List.append_assoc _ after] at hrender
    exact ⟨before, _, hwritten, hrender⟩
  · rintro rfl
    exact hmet.inFlatGroup

/-- `[match v with [1] -> 0]` -/
def matchInList : Expr :=
  .list [.cases (.var (Text.ofString "v"))
    [⟨.list [.literal (.int 1)], .literal (.int 0)⟩]]

/-- The list is flat, since nothing but `[(() => {` stands on its first line; and so is the
condition, though its line is longer than the width. -/
theorem condition_layout_matchInList :
    ∃ term checks body p i m rest,
      (matchInList.emission ⟨20, false⟩).result = .ok term ∧
      Met 20 term.doc (Stmt.guarded checks body).doc p i m rest ∧
      (∃ before after, p.written = before ++ newline i ∧
        (term.render 20).toList =
          before ++ newline i ++
            (if m = .flat ∨ i + (conditionLine (writtenTests checks)).length ≤ 20 then
              conditionLine (writtenTests checks)
            else conditionLines i (writtenTests checks)) ++ newline (i + 2) ++ after) ∧
      (m = .flat → InFlatGroup 20 term.doc p rest) ∧
      conditionLine (writtenTests checks) =
        "if (Array.isArray($) && $.length === 1 && $[0] === 1) \x7b".toList ∧
      term.render 20 = "[(() => \x7b\n  let $ = v;\n" ++
        "  if (Array.isArray($) && $.length === 1 && $[0] === 1) \x7b\n    return 0;\n  \x7d\n" ++
        "  throw new Error(\"Non-exhaustive match clauses\");\n\x7d)()]" := by
  obtain ⟨term, hterm⟩ :
      ∃ term, (matchInList.emission ⟨20, false⟩).result = .ok term := ⟨_, rfl⟩
  obtain ⟨hmatches, hconditions⟩ := condition_layout hterm
  obtain ⟨place, value, stmts, hresult, hmet⟩ := hmatches (.var (Text.ofString "v"))
    [⟨.list [.literal (.int 1)], .literal (.int 0)⟩]
    (by simp [matchInList, Expr.subexprs, Expr.itemSubexprs])
  cases hresult
  obtain ⟨p, i, m, rest, hmet⟩ := hmet _ List.mem_cons_self
  obtain ⟨-, -, hrender, hflat⟩ := hconditions _ _ p i m rest hmet
  cases hterm
  exact ⟨_, _, _, p, i, m, rest, rfl, hmet, hrender, hflat, by decide +kernel, by decide +kernel⟩

end Script
end CaseScript
