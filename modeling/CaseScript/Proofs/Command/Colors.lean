import CaseScript.Proofs.Command.Loading

/-!
# Colours

A terminal without colours shows what one with colours does, less the escape sequences. So what it
shows of a diagnostic is the report without colours.
-/

namespace CaseScript
namespace Command

open Command.Action Report
open Text (EscapeForm IsEscapeFree WithoutEscapes letterSequence controlSequence stripEscapes)

/-! ## Two terminals -/

/-- Is one text what is left of another one, and so with any lines that come after both? -/
structure Fades (text left : String) : Prop where
  settled : IsSettled controlSequence text
  plain_eq : Text.plain text = left

theorem Fades.line {text left : String} (h : Fades text left) (line : String) :
    Fades (text ++ line ++ "\n") (left ++ Text.plain line ++ "\n") := by
  have hform := coversStyles_controlSequence
  have hend : "\n".toList = ['\n'] := rfl
  have hclosing : controlSequence.IsClosing '\n' :=
    ⟨by decide, hform.newline.ne_bracket, hform.newline.parameter, hform.newline.intermediate⟩
  refine ⟨fun rest => ?_, ?_⟩
  · rw [String.toList_append, hend]
    exact Text.stripEscapes_append hform.apart (Text.isParted_snoc hclosing)
  · have hline := stripEscapes_newline hform line.toList []
    rw [Text.stripEscapes_nil] at hline
    rw [← h.plain_eq]
    apply String.toList_injective
    simp only [Text.plain, String.toList_append, String.toList_ofList, hend, List.append_assoc]
    rw [h.settled, hline]

/-- Do two sessions differ at most in the escape sequences of what they have printed? -/
structure Session.SameButColors (uncolored colored : Session) : Prop where
  workspace : uncolored.workspace = colored.workspace
  out : Fades colored.out uncolored.out
  err : Fades colored.err uncolored.err

namespace Action

variable {α β : Type} {x : Action α} {f : α → Action β}

/-- Does an action that keeps no log do the same with colours and without them, but for the escape
sequences? -/
def PrintsAlike (action : Action α) : Prop :=
  ∀ uncolored colored : Session, uncolored.SameButColors colored →
    ∃ found uncolored' colored',
      (action { color := false }).run uncolored = (found, uncolored') ∧
        (action { color := true }).run colored = (found, colored') ∧
        uncolored'.SameButColors colored'

/-- What prints nothing and pays no heed to its terminal. -/
theorem alike_of_run (result : Workspace → Except Failure α × Workspace)
    (h : ∀ (color : Bool) (session : Session), (x { color }).run session =
      ((result session.workspace).1,
        { session with workspace := (result session.workspace).2 })) :
    PrintsAlike x := by
  intro uncolored colored hsame
  have hcolored := h true colored
  rw [← hsame.workspace] at hcolored
  exact ⟨_, _, _, h false uncolored, hcolored, ⟨rfl, hsame.out, hsame.err⟩⟩

theorem alike_pure (a : α) : PrintsAlike (pure a) :=
  alike_of_run (fun w => (.ok a, w)) fun _ _ => rfl

theorem alike_throw (failure : Failure) : PrintsAlike (throw failure : Action α) :=
  alike_of_run (fun w => (.error failure, w)) fun _ _ => rfl

theorem alike_workspace : PrintsAlike workspace :=
  alike_of_run (fun w => (.ok w, w)) fun _ _ => rfl

theorem alike_log (part message : String) : PrintsAlike (log part message) :=
  alike_of_run (fun w => (.ok (), w)) fun _ _ => rfl

theorem alike_reading (found : Except FileFault α) : PrintsAlike (reading found) := by
  cases found with
  | ok a => exact alike_pure a
  | error fault => exact alike_throw _

theorem alike_say (line : String) : PrintsAlike (say line) := fun _ _ hsame =>
  ⟨.ok (), _, _, run_say line _ _, run_say line _ _,
    ⟨hsame.workspace, hsame.out.line line, hsame.err⟩⟩

theorem alike_complain (line : String) : PrintsAlike (complain line) := fun _ _ hsame =>
  ⟨.ok (), _, _, run_complain line _ _, run_complain line _ _,
    ⟨hsame.workspace, hsame.out, hsame.err.line line⟩⟩

theorem PrintsAlike.bind (hx : PrintsAlike x) (hf : ∀ a, PrintsAlike (f a)) :
    PrintsAlike (x >>= f) := by
  intro uncolored colored hsame
  obtain ⟨found, uncolored', colored', hrun, hrun', hsame'⟩ := hx uncolored colored hsame
  cases found with
  | error failure =>
    exact ⟨_, _, _, run_bind_of_error hrun, run_bind_of_error hrun', hsame'⟩
  | ok a =>
    rw [run_bind_of_ok hrun, run_bind_of_ok hrun']
    exact hf a uncolored' colored' hsame'

theorem alike_change (step : Workspace → Except FileFault Workspace) :
    PrintsAlike (change step) := by
  refine alike_workspace.bind fun w => (alike_reading (step w)).bind fun changed => ?_
  exact alike_of_run (fun _ => (.ok (), changed)) fun _ _ => rfl

theorem alike_refuse (reason : String) : PrintsAlike (refuse reason : Action α) :=
  (alike_complain _).bind fun _ => alike_throw _

theorem alike_descend (fits : Bool) : PrintsAlike (descend fits) := by
  cases fits with
  | true => exact alike_pure ()
  | false => exact alike_throw _

theorem alike_forM {items : List α} {each : α → Action PUnit} (h : ∀ a, PrintsAlike (each a)) :
    PrintsAlike (items.forM each) := by
  induction items with
  | nil => exact alike_pure ()
  | cons a rest ih => exact (h a).bind fun _ => ih

end Action

/-! ## Requests with and without colours -/

theorem alike_report (fileName : String) (diagnostics : List Diagnostic) :
    PrintsAlike (report fileName diagnostics) :=
  alike_forM fun _ => alike_complain _

theorem alike_loadSettings (file : String) : PrintsAlike (loadSettings file) := by
  apply alike_workspace.bind
  intro w
  cases Settings.find? w file with
  | none => exact (alike_log _ _).bind fun _ => alike_pure _
  | some location =>
    refine (alike_log _ _).bind fun _ => (alike_descend _).bind fun _ => ?_
    cases Settings.load w.tree location with
    | ok settings => exact alike_pure settings
    | error fault =>
      cases fault with
      | file fault => exact alike_throw _
      | content fault =>
        cases fault with
        | notTable value => exact alike_throw _
        | notUtf8 => exact alike_refuse _
        | notToml => exact alike_refuse _
        | badWidth => exact alike_refuse _
        | oversized count => exact alike_refuse _

theorem alike_loadText (file : String) : PrintsAlike (loadText file) := by
  refine alike_workspace.bind fun w => (alike_reading _).bind fun bytes => ?_
  refine (alike_descend _).bind fun _ => ?_
  cases Text.ofFile? bytes with
  | none => exact alike_throw _
  | some text => exact alike_pure text

theorem alike_load (file : String) : PrintsAlike (load file) := by
  refine (alike_loadSettings file).bind fun settings => (alike_loadText file).bind fun text => ?_
  cases Expr.ofSource text with
  | error fault =>
    cases fault with
    | oversized count => exact alike_throw _
    | notJson source cause => exact (alike_report _ _).bind fun _ => alike_throw _
    | badShape faults => exact (alike_report _ _).bind fun _ => alike_throw _
  | ok e => exact (alike_log _ _).bind fun _ => alike_pure _

theorem alike_generate (file : String) (settings : Settings) (e : Expr) :
    PrintsAlike (generate file settings e) := by
  refine (alike_forM fun _ => alike_log _ _).bind fun _ => ?_
  cases e.script settings with
  | error fault => exact (alike_report _ _).bind fun _ => alike_throw _
  | ok code => exact (alike_report _ _).bind fun _ => alike_pure code

theorem alike_overridden (options : EmitOptions) (settings : Settings) :
    PrintsAlike (overridden options settings) := by
  unfold overridden
  cases options.width? with
  | none => exact alike_pure settings
  | some width =>
    dsimp only
    split
    · exact alike_pure _
    · exact alike_refuse _

theorem alike_emit (file : String) (options : EmitOptions) : PrintsAlike (emit file options) := by
  refine (alike_load file).bind fun (e, settings) => (alike_overridden options settings).bind
    fun settings => (alike_generate file settings e).bind fun code => ?_
  cases options.output? with
  | none => exact alike_say code
  | some output => exact (alike_change _).bind fun _ => alike_say _

theorem alike_init (path : String) : PrintsAlike (init path) := by
  have hwriting := fun target : PathName =>
    (alike_change (·.makeDirectories target.parent)).bind fun _ =>
      (alike_change (·.writeFile target.written Settings.defaultText.toUTF8)).bind fun _ =>
        alike_say ("created " ++ target.written)
  refine alike_workspace.bind fun w => ?_
  split
  · exact (alike_refuse _).bind fun _ => hwriting _
  · exact hwriting _

theorem alike_perform (request : Request) : PrintsAlike request.perform := by
  cases request with
  | emit file options => exact alike_emit file options
  | check file =>
    exact (alike_load file).bind fun (e, settings) =>
      (alike_generate file settings e).bind fun _ => alike_say _
  | view file => exact (alike_load file).bind fun _ => alike_forM fun _ => alike_say _
  | init path => exact alike_init path

theorem alike_refuseUsage : PrintsAlike refuseUsage :=
  (alike_complain usageLine).bind fun _ => alike_throw _

theorem alike_invocation (invocation : Invocation) : PrintsAlike invocation.perform := by
  cases invocation with
  | help => exact alike_say usageLine
  | version => exact alike_say versionLine
  | run verbose request =>
    refine alike_workspace.bind fun w => ?_
    split
    · exact alike_perform request
    · exact alike_refuseUsage

/-- Does a run end as another one does, and print the same less the escape sequences? -/
structure Outcome.IsPlainOf (outcome colored : Outcome) : Prop where
  failure : outcome.failure? = colored.failure?
  workspace : outcome.session.workspace = colored.session.workspace
  out : outcome.session.out = Text.plain colored.session.out
  err : outcome.session.err = Text.plain colored.session.err

theorem fades_empty : Fades "" "" where
  settled _ := by rw [String.toList_empty, Text.stripEscapes_nil, List.nil_append, List.nil_append]
  plain_eq := Text.plain_eq_self List.not_mem_nil

theorem Action.PrintsAlike.outcome {action : Action Unit} (h : PrintsAlike action) (w : Workspace) :
    (action.outcome { color := false } { workspace := w }).IsPlainOf
      (action.outcome { color := true } { workspace := w }) := by
  obtain ⟨found, uncolored, colored, hrun, hrun', hsame⟩ :=
    h { workspace := w } { workspace := w } ⟨rfl, fades_empty, fades_empty⟩
  rw [outcome_eq hrun, outcome_eq hrun']
  exact ⟨rfl, hsame.workspace, hsame.out.plain_eq.symm, hsame.err.plain_eq.symm⟩

/-- Without colours a run that does not log is the same as with colours, less the escape
sequences. -/
theorem run_isPlainOf {args : List String} (w : Workspace)
    (hquiet : (Invocation.ofArgs? args).any Invocation.isVerbose = false) :
    (run false args w).IsPlainOf (run true args w) := by
  have halike : ∀ invocation? : Option Invocation,
      PrintsAlike ((invocation?.map Invocation.perform).getD refuseUsage) := by
    intro invocation?
    cases invocation? with
    | none => exact alike_refuseUsage
    | some invocation => exact alike_invocation invocation
  unfold run
  dsimp only
  rw [hquiet]
  exact (halike (Invocation.ofArgs? args)).outcome w

/-! ## Reports on both terminals -/

variable {fileName : String} {d : Diagnostic}

theorem stripEscapes_report_eq (hfile : IsEscapeFree fileName) (h : d.IsEscapeFree)
    {form : EscapeForm} (hform : CoversStyles form) (color : Bool) :
    stripEscapes form (d.report color fileName).toList = (d.report false fileName).toList := by
  have hplain : stripEscapes form (d.report false fileName).toList =
      (d.report false fileName).toList := Text.stripEscapes_eq_self (isEscapeFree_report hfile h)
  cases color with
  | true => rw [stripEscapes_report hform, hplain]
  | false => exact hplain

theorem shown_report (hfile : IsEscapeFree fileName) (h : d.IsEscapeFree) (terminal : Terminal) :
    terminal.shown (d.report true fileName) = d.report terminal.color fileName := by
  unfold Terminal.shown
  split
  · rename_i hcolor
    rw [hcolor]
  · rename_i hcolor
    rw [Bool.eq_false_of_not_eq_true hcolor, Text.plain,
      stripEscapes_report_eq hfile h coversStyles_controlSequence, String.ofList_toList]

theorem stripEscapes_printed {form : EscapeForm} (hform : CoversStyles form)
    {diagnostics : List Diagnostic} {line line' : Diagnostic → String}
    (h : ∀ d ∈ diagnostics, stripEscapes form (line d).toList = (line' d).toList) :
    stripEscapes form (printed (diagnostics.map line)).toList =
      (printed (diagnostics.map line')).toList := by
  induction diagnostics with
  | nil => exact Text.stripEscapes_nil form
  | cons d rest ih =>
    rw [List.forall_mem_cons] at h
    rw [List.map_cons, List.map_cons, toList_printed_cons, toList_printed_cons,
      stripEscapes_newline hform, h.1, ih h.2]

/-- Deleting the escape sequences of a report with colours leaves the report without colours, if no
text that it shows holds an escape character. The same holds of all that is printed to report
diagnostics, and a terminal without colours is shown the plain reports from the start. Any run
prints the same on both kinds of terminals, less the escape sequences, unless it logs. -/
theorem plain_and_colored_agree :
    (∀ (fileName : String) (d : Diagnostic), IsEscapeFree fileName → d.IsEscapeFree →
      ∀ t, WithoutEscapes letterSequence (d.report true fileName).toList t ↔
        t = (d.report false fileName).toList) ∧
    (∀ (fileName : String) (diagnostics : List Diagnostic), IsEscapeFree fileName →
      (∀ d ∈ diagnostics, d.IsEscapeFree) → ∀ (terminal : Terminal) (session : Session),
        let reports := fun color => printed (diagnostics.map (·.report color fileName))
        (report fileName diagnostics terminal).run session =
            (.ok (), { session with err := session.err ++ reports terminal.color }) ∧
          ∀ t, WithoutEscapes letterSequence (reports terminal.color).toList t ↔
            t = (reports false).toList) ∧
    ∀ (args : List String) (w : Workspace),
      (Invocation.ofArgs? args).any Invocation.isVerbose = false →
        (run false args w).IsPlainOf (run true args w) := by
  have hform := coversStyles_letterSequence
  refine ⟨fun fileName d hfile hd t => ?_,
    fun fileName diagnostics hfile hfree terminal session => ⟨?_, fun t => ?_⟩,
    fun args w => run_isPlainOf w⟩
  · rw [Text.withoutEscapes_iff hform.apart, stripEscapes_report_eq hfile hd hform]
  · have hshown : diagnostics.map (fun d => terminal.shown (d.report true fileName)) =
        diagnostics.map (·.report terminal.color fileName) :=
      List.map_congr_left fun d hd => shown_report hfile (hfree d hd) terminal
    rw [run_report, hshown]
  · rw [Text.withoutEscapes_iff hform.apart, stripEscapes_printed hform fun d hd =>
      stripEscapes_report_eq hfile (hfree d hd) hform terminal.color]

/-- A diagnostic whose texts look like parts of escape sequences. -/
def lookalike : Diagnostic where
  severity := .warning
  code := "[0m"
  message := "1;31mred"
  labels := [⟨.root "[2K", "m[0"⟩, ⟨.root ";5A", ""⟩]
  suggestions := [⟨"[m", "?25h"⟩]
  notes := ["[K"]

/-- A file whose only node has a tag that looks like part of an escape sequence. -/
def lookalikeTag : Workspace where
  tree := .directory [("f.json", .file "\x7b\"type\": \"[0m\"\x7d".toUTF8)]
  directory := []

theorem plain_and_colored_agree_lookalike :
    let plainText := "warning[[0m]: 1;31mred\n  --> [A.json#[2K\n     |   m[0\n" ++
      "  --> [A.json#;5A\n  = note: [K\n  try: ?25h"
    IsEscapeFree "[A.json" ∧ lookalike.IsEscapeFree ∧
      WithoutEscapes letterSequence (lookalike.report true "[A.json").toList plainText.toList ∧
      (report "[A.json" [lookalike, lookalike] { color := false }).run
          { workspace := lookalikeTag, err := "before\n" } =
        (.ok (),
          { workspace := lookalikeTag, err := "before\n" ++ printed [plainText, plainText] }) ∧
      (Invocation.ofArgs? ["check", "f.json"]).any Invocation.isVerbose = false ∧
      Text.plain (run true ["check", "f.json"] lookalikeTag).session.err =
        "error[E002]: unknown expression type '[0m'\n  --> f.json#expr\n" := by
  intro plainText
  have hfile : IsEscapeFree "[A.json" := by decide
  have hfree : lookalike.IsEscapeFree :=
    ⟨by decide, by decide, by decide +kernel, by decide, by decide⟩
  have hboth : ∀ d ∈ [lookalike, lookalike], d.IsEscapeFree := by
    intro d hd
    rw [List.eq_of_mem_replicate (n := 2) hd]
    exact hfree
  have hquiet : (Invocation.ofArgs? ["check", "f.json"]).any Invocation.isVerbose = false := by
    decide +kernel
  have hplain : lookalike.report false "[A.json" = plainText := by decide +kernel
  have herr : (run false ["check", "f.json"] lookalikeTag).session.err =
      "error[E002]: unknown expression type '[0m'\n  --> f.json#expr\n" := by decide +kernel
  obtain ⟨hreport, hprinted, hrun⟩ := plain_and_colored_agree
  refine ⟨hfile, hfree, ?_, ?_, hquiet, ?_⟩
  · rw [← hplain]
    exact (hreport _ _ hfile hfree _).mpr rfl
  · rw [← hplain]
    exact (hprinted _ _ hfile hboth { color := false } _).1
  · rw [← (hrun _ lookalikeTag hquiet).err, herr]

end Command
end CaseScript
