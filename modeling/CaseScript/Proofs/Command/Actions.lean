import CaseScript.Command.Run
import CaseScript.Proofs.Diagnostic.Report

/-!
# Actions that only read

Most of what the command does leaves the workspace as it is and only prints. What comes of such an
action can be told from the workspace alone, and where the action fails with a report, its last line
says what is wrong.
-/

namespace CaseScript
namespace Command

/-- The text that lines are printed as. -/
def printed (lines : List String) : String := String.join (lines.map (· ++ "\n"))

theorem printed_concat (lines : List String) (line : String) :
    printed (lines ++ [line]) = printed lines ++ line ++ "\n" := by
  simp only [printed, List.map_append, List.map_singleton, String.join_append, String.join_cons,
    String.join_nil, String.append_empty, String.append_assoc]

theorem toList_printed_cons (line : String) (lines : List String) :
    (printed (line :: lines)).toList = line.toList ++ '\n' :: (printed lines).toList := by
  have hend : "\n".toList = ['\n'] := rfl
  rw [printed, List.map_cons, String.join_cons, String.toList_append, String.toList_append, hend,
    List.append_assoc, List.singleton_append]
  rfl

/-! ## Complaints -/

/-- Does a text say what is wrong? -/
inductive IsComplaint : String → Prop
  | refusal (reason : String) : IsComplaint ("error: " ++ reason)
  | diagnostic (fileName : String) {d : Diagnostic} (error : d.severity = .error) :
    IsComplaint (d.report true fileName)

/-- Does what was printed end in a line that says what is wrong? -/
def EndsInComplaint (terminal : Terminal) (printed : String) : Prop :=
  ∃ earlier text, IsComplaint text ∧ terminal.shown text ≠ "" ∧
    printed = earlier ++ terminal.shown text ++ "\n"

theorem EndsInComplaint.after {terminal : Terminal} {printed : String}
    (h : EndsInComplaint terminal printed) (earlier : String) :
    EndsInComplaint terminal (earlier ++ printed) := by
  obtain ⟨before, text, htext, hne, rfl⟩ := h
  exact ⟨earlier ++ before, text, htext, hne, by simp only [String.append_assoc]⟩

/-- A report begins with the severity, in its colour. -/
theorem exists_report_eq (fileName : String) (d : Diagnostic) :
    ∃ rest, d.report true fileName =
      (Report.Style.severity d.severity).code ++ (d.severity.name ++ rest) := by
  rw [Diagnostic.report, Report.lines, List.cons_append, List.cons_append, List.map_cons,
    Report.writtenLine, Report.header, List.map_cons, String.join_cons, Report.Span.styled,
    Report.Span.written, if_pos rfl]
  simp only [String.append_assoc, String.intercalate_cons_append]
  exact ⟨_, rfl⟩

theorem IsComplaint.plain_ne_empty {text : String} (h : IsComplaint text) :
    Text.plain text ≠ "" := by
  have hescape : 'e' ≠ Text.escapeChar := by decide
  rw [ne_eq, ← String.toList_eq_nil_iff, Text.plain, String.toList_ofList]
  cases h with
  | refusal reason =>
    have herror : "error: ".toList = 'e' :: "rror: ".toList := rfl
    rw [String.toList_append, herror, List.cons_append, Text.stripEscapes_cons_of_ne hescape]
    exact List.cons_ne_nil _ _
  | diagnostic fileName hseverity =>
    rename_i d
    obtain ⟨rest, hreport⟩ := exists_report_eq fileName d
    have hname : Severity.error.name.toList = 'e' :: "rror".toList := rfl
    have hform := Report.coversStyles_controlSequence
    rw [hreport, String.toList_append, String.toList_append,
      Text.stripEscapes_append_of_isSequence hform.apart (hform.code _), hseverity, hname,
      List.cons_append, Text.stripEscapes_cons_of_ne hescape]
    exact List.cons_ne_nil _ _

theorem IsComplaint.shown_ne_empty {text : String} (h : IsComplaint text) (terminal : Terminal) :
    terminal.shown text ≠ "" := by
  unfold Terminal.shown
  split
  · rintro rfl
    exact h.plain_ne_empty (Text.plain_eq_self List.not_mem_nil)
  · exact h.plain_ne_empty

namespace Action

variable {α β : Type} {x : Action α} {f : α → Action β} {terminal : Terminal}
  {session after : Session}

theorem run_bind_of_ok {a : α} (h : (x terminal).run session = (.ok a, after)) :
    ((x >>= f) terminal).run session = (f a terminal).run after := by
  have hx : x terminal session = (.ok a, after) := h
  simp only [bind, ReaderT.bind, ExceptT.bind, ExceptT.bindCont, ExceptT.mk, ExceptT.run,
    StateT.bind, hx]

theorem run_bind_of_error {failure : Failure}
    (h : (x terminal).run session = (.error failure, after)) :
    ((x >>= f) terminal).run session = (.error failure, after) := by
  have hx : x terminal session = (.error failure, after) := h
  simp only [bind, ReaderT.bind, ExceptT.bind, ExceptT.bindCont, ExceptT.mk, ExceptT.run,
    StateT.bind, hx]
  rfl

/-- Does an action only read? Then what comes of it can be told from the workspace, which stays as
it is; all that changes is what has been printed. A quiet action prints nothing to the standard
output, and a failure with a report ends in a complaint. -/
def Reads (quiet : Bool) (action : Action α) (result : Workspace → Except Failure α) : Prop :=
  ∀ terminal session, ∃ out err,
    (action terminal).run session =
        (result session.workspace,
          { session with out := session.out ++ out, err := session.err ++ err }) ∧
      (quiet = true → out = "") ∧
      (result session.workspace = .error .reported → EndsInComplaint terminal err)

variable {quiet : Bool} {result : Workspace → Except Failure α}

/-- What prints nothing and does not complain. -/
theorem reads_of_run
    (h : ∀ terminal session, (x terminal).run session = (result session.workspace, session))
    (hresult : ∀ w, result w ≠ .error .reported) : Reads quiet x result := by
  intro terminal session
  refine ⟨"", "", ?_, fun _ => rfl, fun hreported => absurd hreported (hresult _)⟩
  rw [h, String.append_empty, String.append_empty]

theorem reads_pure (a : α) : Reads quiet (pure a) fun _ => .ok a :=
  reads_of_run (fun _ _ => rfl) nofun

/-- A failure that is not reported has nothing to say. -/
theorem reads_throw {failure : Failure} (h : failure ≠ .reported) :
    Reads quiet (throw failure : Action α) fun _ => .error failure :=
  reads_of_run (fun _ _ => rfl) fun _ hreported => h (Except.error.inj hreported)

theorem reads_breakdown (cause : Breakdown) :
    Reads quiet (throw (.breakdown cause) : Action α) fun _ => .error (.breakdown cause) :=
  reads_throw nofun

theorem reads_workspace : Reads quiet workspace fun w => .ok w :=
  reads_of_run (fun _ _ => rfl) nofun

theorem reads_reading (found : Except FileFault α) :
    Reads quiet (reading found)
      fun _ => found.mapError fun fault => .breakdown (.file fault) := by
  cases found with
  | ok a => exact reads_pure a
  | error fault => exact reads_breakdown (.file fault)

theorem Reads.bind {next : α → Workspace → Except Failure β} (hx : Reads quiet x result)
    (hf : ∀ a, Reads quiet (f a) (next a)) :
    Reads quiet (x >>= f) fun w => result w >>= fun a => next a w := by
  intro terminal session
  obtain ⟨out, err, hrun, hquiet, hcomplaint⟩ := hx terminal session
  dsimp only
  cases hresult : result session.workspace with
  | error failure =>
    rw [hresult] at hrun hcomplaint
    exact ⟨out, err, run_bind_of_error hrun, hquiet,
      fun hreported => hcomplaint (by cases hreported; rfl)⟩
  | ok a =>
    rw [hresult] at hrun
    obtain ⟨out', err', hrun', hquiet', hcomplaint'⟩ := hf a terminal
      { session with out := session.out ++ out, err := session.err ++ err }
    refine ⟨out ++ out', err ++ err', ?_, fun h => ?_,
      fun hreported => (hcomplaint' hreported).after err⟩
    · rw [run_bind_of_ok hrun, hrun', ← String.append_assoc, ← String.append_assoc]
      rfl
    · rw [hquiet h, hquiet' h, String.append_empty]

/-- What an action does with the workspace that it finds. -/
theorem reads_workspace_bind {f : Workspace → Action α}
    (h : ∀ w, Reads quiet (f w) fun _ => result w) : Reads quiet (workspace >>= f) result := by
  have hnext : ∀ found, Reads quiet (f found) ((fun w _ => result w) found) := h
  have hbind := reads_workspace.bind hnext
  exact hbind

/-- A step that cannot fail comes to nothing by itself. -/
theorem Reads.andThen {step : Action Unit} {f : Unit → Action α}
    (hstep : Reads quiet step fun _ => .ok ()) (hf : Reads quiet (f ()) result) :
    Reads quiet (step >>= f) result := by
  have hnext : ∀ u, Reads quiet (f u) ((fun _ => result) u) := fun _ => hf
  have hbind := hstep.bind hnext
  exact hbind

theorem reads_say (line : String) : Reads false (say line) fun _ => .ok () := by
  intro terminal session
  refine ⟨terminal.shown line ++ "\n", "", ?_, nofun, nofun⟩
  rw [run_say, String.append_empty, String.append_assoc]

theorem reads_complain (line : String) : Reads quiet (complain line) fun _ => .ok () := by
  intro terminal session
  refine ⟨"", terminal.shown line ++ "\n", ?_, fun _ => rfl, nofun⟩
  rw [run_complain, String.append_empty, String.append_assoc]

theorem reads_log (part message : String) : Reads quiet (log part message) fun _ => .ok () := by
  intro terminal session
  rcases terminal with ⟨color, _ | _⟩
  · refine ⟨"", "", ?_, fun _ => rfl, nofun⟩
    rw [String.append_empty, String.append_empty]
    rfl
  · refine ⟨"", "DEBUG " ++ part ++ ": " ++ message ++ "\n", ?_, fun _ => rfl, nofun⟩
    rw [String.append_empty]
    simp only [← String.append_assoc]
    rfl

theorem reads_refuse (reason : String) :
    Reads quiet (refuse reason : Action α) fun _ => .error .reported := by
  intro terminal session
  have hcomplaint : IsComplaint ("error: " ++ reason) := .refusal reason
  refine ⟨"", terminal.shown ("error: " ++ reason) ++ "\n", ?_, fun _ => rfl, fun _ =>
    ⟨"", _, hcomplaint, hcomplaint.shown_ne_empty terminal, by rw [String.empty_append]⟩⟩
  rw [run_refuse, String.append_empty, String.append_assoc]

theorem reads_forM {items : List α} {each : α → Action PUnit}
    (h : ∀ a, Reads quiet (each a) fun _ => .ok ()) :
    Reads quiet (items.forM each) fun _ => .ok () := by
  induction items with
  | nil => exact reads_pure ()
  | cons a rest ih => exact (h a).bind fun _ => ih

end Action

variable {quiet : Bool}

theorem reads_report (fileName : String) (diagnostics : List Diagnostic) :
    Action.Reads quiet (report fileName diagnostics) fun _ => .ok () :=
  Action.reads_forM fun _ => Action.reads_complain _

theorem run_report (fileName : String) (diagnostics : List Diagnostic) (terminal : Terminal)
    (session : Session) :
    (report fileName diagnostics terminal).run session =
      (.ok (), { session with
        err := session.err ++
          printed (diagnostics.map fun d => terminal.shown (d.report true fileName)) }) := by
  induction diagnostics generalizing session with
  | nil =>
    have hnothing : printed [] = "" := rfl
    rw [List.map_nil, hnothing, String.append_empty]
    rfl
  | cons d rest ih =>
    have hrun : (report fileName (d :: rest) terminal).run session =
        (report fileName rest terminal).run
          { session with err := session.err ++ terminal.shown (d.report true fileName) ++ "\n" } :=
      Action.run_bind_of_ok (Action.run_complain (d.report true fileName) terminal session)
    rw [hrun, ih]
    simp only [printed, List.map_cons, String.join_cons, String.append_assoc]

theorem exists_run_report (fileName : String) {diagnostics : List Diagnostic}
    (hne : diagnostics ≠ []) (herror : ∀ d ∈ diagnostics, d.severity = .error)
    (terminal : Terminal) (session : Session) :
    ∃ err, (report fileName diagnostics terminal).run session =
        (.ok (), { session with err := session.err ++ err }) ∧ EndsInComplaint terminal err := by
  obtain ⟨earlier, d, rfl⟩ := (List.eq_nil_or_concat diagnostics).resolve_left hne
  rw [List.concat_eq_append] at herror ⊢
  have hrun := run_report fileName (earlier ++ [d]) terminal session
  rw [List.map_append, List.map_singleton, printed_concat] at hrun
  have hcomplaint : IsComplaint (d.report true fileName) :=
    .diagnostic fileName (herror d (List.mem_append_right _ List.mem_cons_self))
  exact ⟨_, hrun, _, _, hcomplaint, hcomplaint.shown_ne_empty terminal, rfl⟩

/-- A failure whose reasons have been reported. -/
theorem reads_failing {α : Type} (fileName : String) {diagnostics : List Diagnostic}
    (hne : diagnostics ≠ []) (herror : ∀ d ∈ diagnostics, d.severity = .error) :
    Action.Reads quiet (do report fileName diagnostics; throw .reported : Action α)
      fun _ => .error .reported := by
  intro terminal session
  obtain ⟨err, hrun, hends⟩ := exists_run_report fileName hne herror terminal session
  refine ⟨"", err, ?_, fun _ => rfl, fun _ => hends⟩
  rw [String.append_empty]
  exact Action.run_bind_of_ok hrun

end Command
end CaseScript
