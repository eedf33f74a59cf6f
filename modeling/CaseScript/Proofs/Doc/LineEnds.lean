import CaseScript.Proofs.Doc.Progress
import CaseScript.Proofs.Text.Margin

/-!
# The ends of lines

A group becomes flat if its line has room up to the next place where it may end. The groups behind
it are decided later and can only end the line sooner. But a break that ends a line writes its own
text before the newline, and the test does not count this text.
-/

namespace CaseScript
namespace Doc

open Text

/-- What is written before the newline, if the line ends with what is pending. -/
def Progress.ending? (p : Progress) : Option String :=
  match p.pending with
  | [] | ⟨_, _, .line⟩ :: _ => some ""
  | ⟨_, .broken, .brk _ broken⟩ :: _ => some broken
  | _ => none

/-- Some steps of a layout, none of which ends the line. -/
abbrev RunOnLine (width : Int) : Progress → Progress → Prop :=
  Relation.ReflTransGen fun p q => p.ending? = none ∧ Step width p q

/-- The line that is being written in `p` ends in the state `q`, behind one more text. -/
structure EndsLine (width : Int) (p q : Progress) (overhang : String) : Prop where
  run : RunOnLine width p q
  ending : q.ending? = some overhang

/-- The rest of a line has room for what is pending up to the next place where the line may end. -/
def Progress.HasRoom (width : Int) (p : Progress) : Prop :=
  p.column + (leadAll (following p.pending)).length ≤ width

variable {width : Int} {p q : Progress}

theorem RunOnLine.run (h : RunOnLine width p q) : Run width p q :=
  Relation.ReflTransGen.mono (fun _ _ h => h.2) _ _ h

theorem Progress.hasRoom_iff : p.HasRoom width ↔ fits (width - p.column) p.pending = true := by
  rw [fits_eq, decide_eq_true_eq, HasRoom]
  omega

theorem Step.hasRoom (h : Step width p q) (hline : p.ending? = none) (hroom : p.HasRoom width) :
    q.HasRoom width := by
  cases h with
  | text =>
    simp only [Progress.HasRoom, following_cons, leadAll, lead, List.length_append,
      String.length_toList] at hroom ⊢
    omega
  | flatBrk =>
    simp only [Progress.HasRoom, following_cons, leadAll, lead, List.length_append,
      String.length_toList] at hroom ⊢
    omega
  | line | brokenBrk => exact absurd hline (by simp [Progress.ending?])
  | flatten fitting => exact Progress.hasRoom_iff.mpr fitting
  | empty | append | nest | flatNest | brokenNest | flatGroup | spread => exact hroom

/-- A line with enough room ends within the width, if it were not for the text of a break. -/
theorem Progress.HasRoom.exists_end (h : p.HasRoom width) :
    ∃ q overhang, EndsLine width p q overhang ∧ q.column ≤ width := by
  induction hwork : work p.pending using Nat.strong_induction_on generalizing p with
  | _ n ih =>
    cases hline : p.ending? with
    | some overhang =>
      refine ⟨p, overhang, ⟨.refl, hline⟩, ?_⟩
      unfold HasRoom at h
      omega
    | none =>
      have hpending : p.pending ≠ [] := by
        intro hnil
        simp [ending?, hnil] at hline
      obtain ⟨next, hstep⟩ := exists_step width hpending
      obtain ⟨q, overhang, hends, hcolumn⟩ :=
        ih _ (hwork ▸ hstep.work_lt) (hstep.hasRoom hline h) rfl
      exact ⟨q, overhang, ⟨.head ⟨hline, hstep⟩ hends.run, hends.ending⟩, hcolumn⟩

/-- Behind the text that a break adds there is a newline or nothing at all. -/
theorem Progress.text_of_ending {overhang : String} (h : p.ending? = some overhang) :
    ∃ after, p.text width = p.written ++ overhang.toList ++ after ∧
      (after = [] ∨ ∃ below, after = '\n' :: below) := by
  obtain ⟨s, c, pending⟩ := p
  unfold ending? at h
  split at h
  · rename_i hpending
    cases hpending
    cases h
    exact ⟨[], by simp [text], .inl rfl⟩
  · rename_i i m rest hpending
    cases hpending
    cases h
    refine ⟨newline i ++ layout width i rest, ?_, .inr ⟨_, rfl⟩⟩
    simp [text, layout]
  · rename_i i flat broken rest hpending
    cases hpending
    cases h
    refine ⟨newline i ++ layout width i rest, ?_, .inr ⟨_, rfl⟩⟩
    simp [text, layout]
  · cases h

/-! ## Columns and lines -/

/-- The column is at least the length of the last line, and no line to come will begin to the left
of the first column. -/
structure Progress.Aligned (p : Progress) : Prop where
  line_le : ((lastLine p.written).length : Int) ≤ p.column
  inward : ∀ x ∈ p.pending, 0 ≤ x.indent ∧ x.doc.Inward

theorem Step.aligned (h : Step width p q) (hp : p.Aligned) : q.Aligned := by
  obtain ⟨hline, hinward⟩ := hp
  cases h
  all_goals
    rw [List.forall_mem_cons] at hinward
    obtain ⟨⟨hindent, hdoc⟩, hrest⟩ := hinward
    simp only [Inward] at hdoc hindent hline
  case text s c i m t rest =>
    refine ⟨?_, hrest⟩
    have hlength := length_lastLine_append_le s t.toList
    simp only [String.length_toList] at hlength ⊢
    omega
  case flatBrk s c i flat broken rest =>
    refine ⟨?_, hrest⟩
    have hlength := length_lastLine_append_le s flat.toList
    simp only [String.length_toList] at hlength ⊢
    omega
  case line s c i m rest =>
    refine ⟨?_, hrest⟩
    simp only [lastLine_newline, List.length_replicate]
    omega
  case brokenBrk s c i flat broken rest =>
    refine ⟨?_, hrest⟩
    simp only [← List.append_assoc, lastLine_newline, List.length_replicate]
    omega
  all_goals
    refine ⟨hline, ?_⟩
    simp_all
  all_goals omega

theorem Run.aligned (h : Run width p q) (hp : p.Aligned) : q.Aligned := by
  induction h with
  | refl => exact hp
  | tail _ hstep ih => exact hstep.aligned ih

theorem aligned_start {doc : Doc} (h : doc.Inward) : (Progress.start doc).Aligned where
  line_le := by simp [Progress.start, lastLine]
  inward := by simpa [Progress.start] using h

/-- When a group becomes flat, its line ends within the width, apart from what a break writes before
the newline that ends the line. -/
theorem flat_group_line_ends {doc inner : Doc} {i : Int} {rest : List Pending}
    (hmet : Met width doc (.group inner) p i .broken rest)
    (hflat : Step width p ⟨p.written, p.column, ⟨i, .flat, inner⟩ :: rest⟩) :
    ∃ q overhang, EndsLine width p q overhang ∧
      (∃ after, (doc.render width).toList = q.written ++ overhang.toList ++ after ∧
        (after = [] ∨ ∃ below, after = '\n' :: below)) ∧
      q.column ≤ width ∧
      (doc.Inward →
        ((lastLine (q.written ++ overhang.toList)).length : Int) ≤ q.column + overhang.length) := by
  have hline : p.ending? = none := by simp [Progress.ending?, hmet.pending]
  have hroom : Progress.HasRoom width ⟨p.written, p.column, ⟨i, .flat, inner⟩ :: rest⟩ := by
    obtain ⟨s, c, pending⟩ := p
    obtain ⟨hrun, hpending⟩ := hmet
    dsimp only at hpending hflat
    subst hpending
    cases hflat with
    | flatten fitting => exact Progress.hasRoom_iff.mpr fitting
  obtain ⟨q, overhang, hends, hcolumn⟩ := hroom.exists_end
  have hends : EndsLine width p q overhang := ⟨.head ⟨hline, hflat⟩ hends.run, hends.ending⟩
  have hrun : Run width (.start doc) q := hmet.run.trans hends.run.run
  refine ⟨q, overhang, hends, ?_, hcolumn, fun hinward => ?_⟩
  · rw [← Progress.text_start, ← Run.text_eq hrun]
    exact Progress.text_of_ending hends.ending
  · have hbound := (Run.aligned hrun (aligned_start hinward)).line_le
    have hlength := length_lastLine_append_le q.written overhang.toList
    rw [String.length_toList] at hlength
    omega

/-- The last item of a list that is broken, with the comma that only a broken list has. -/
def lastItem : Doc :=
  append (group (concat [text "[2,", space, text "3]"])) (append (brk "" ",") (text "]"))

/-- The item fits into six columns; with the comma its line has seven. -/
theorem flat_group_line_ends_lastItem :
    ∃ p inner i rest,
      Met 6 lastItem (.group inner) p i .broken rest ∧
      Step 6 p ⟨p.written, p.column, ⟨i, .flat, inner⟩ :: rest⟩ ∧
      (∃ q overhang, EndsLine 6 p q overhang ∧
        (∃ after, (lastItem.render 6).toList = q.written ++ overhang.toList ++ after ∧
          (after = [] ∨ ∃ below, after = '\n' :: below)) ∧
        q.column ≤ 6 ∧
        (lastItem.Inward →
          ((lastLine (q.written ++ overhang.toList)).length : Int) ≤
            q.column + overhang.length)) ∧
      lastItem.render 6 = "[2, 3],\n]" := by
  have hmet : Met 6 lastItem (.group (concat [text "[2,", space, text "3]"])) ⟨[], 0, _⟩ 0 .broken
      [⟨0, .broken, append (brk "" ",") (text "]")⟩] := ⟨.single .append, rfl⟩
  have hfits : fits (6 - 0) (⟨0, .flat, concat [text "[2,", space, text "3]"]⟩ ::
      [⟨0, .broken, append (brk "" ",") (text "]")⟩]) = true := by decide +kernel
  exact ⟨_, _, _, _, hmet, .flatten hfits, flat_group_line_ends hmet (.flatten hfits),
    by decide +kernel⟩

end Doc
end CaseScript
