import CaseScript.Proofs.Command.Loading

/-!
# The files after a run

A run that fails leaves all files as they were. One that succeeds writes one file at most: the
output file of a script, or a new settings file.
-/

namespace CaseScript
namespace Command

open Command.Action

variable {w : Workspace} {file : String}

/-! ## Actions that write -/

namespace Action

variable {α : Type} {x : Action α} {f : α → Action Unit} {action : Action Unit}
  {old : Workspace} {done : Workspace → Prop}

/-- Does an action that starts in the workspace `w` leave behind what `done` asks for if it
succeeds, and the files of the workspace `old` if it fails? -/
def Leaves (action : Action Unit) (old w : Workspace) (done : Workspace → Prop) : Prop :=
  ∀ terminal session found after, (action terminal).run session = (found, after) →
    session.workspace = w →
      match found with
      | .ok () => done after.workspace
      | .error _ => old.SameFiles after.workspace

theorem Reads.leaves {result : Workspace → Except Failure Unit} (h : Reads false action result)
    (hok : result w = .ok () → done w) (herror : result w ≠ .ok () → old.SameFiles w) :
    Leaves action old w done := by
  rintro terminal session found after hrun rfl
  obtain ⟨out, err, hreads, -, -⟩ := h terminal session
  rw [hreads] at hrun
  obtain ⟨rfl, rfl⟩ := Prod.mk.inj hrun
  cases hresult : result session.workspace with
  | ok u => exact hok hresult
  | error failure => exact herror (by rw [hresult]; exact nofun)

theorem Leaves.imp {done' : Workspace → Prop} (h : Leaves action old w done)
    (himp : ∀ w', done w' → done' w') : Leaves action old w done' := by
  intro terminal session found after hrun hw
  have hfound := h terminal session found after hrun hw
  cases found with
  | ok u => exact himp after.workspace hfound
  | error failure => exact hfound

/-- What an action has read is known to what comes next. -/
theorem Reads.leaves_bind {result : Workspace → Except Failure α} (hx : Reads false x result)
    (hsame : old.SameFiles w) (hf : ∀ a, result w = .ok a → Leaves (f a) old w done) :
    Leaves (x >>= f) old w done := by
  rintro terminal session found after hrun rfl
  obtain ⟨out, err, hreads, -⟩ := hx terminal session
  cases hresult : result session.workspace with
  | error failure =>
    rw [hresult] at hreads
    rw [run_bind_of_error hreads] at hrun
    obtain ⟨rfl, rfl⟩ := Prod.mk.inj hrun
    exact hsame
  | ok a =>
    rw [hresult] at hreads
    rw [run_bind_of_ok hreads] at hrun
    exact hf a hresult terminal _ found after hrun rfl

/-- What comes after a change starts from the changed workspace. -/
theorem leaves_change_bind {step : Workspace → Except FileFault Workspace}
    {next : Unit → Action Unit} (hsame : old.SameFiles w)
    (h : ∀ w', step w = .ok w' → Leaves (next ()) old w' done) :
    Leaves (change step >>= next) old w done := by
  rintro terminal session found after hrun rfl
  have hchange := run_change step terminal session
  cases hstep : step session.workspace with
  | error fault =>
    rw [hstep] at hchange
    rw [run_bind_of_error hchange] at hrun
    obtain ⟨rfl, rfl⟩ := Prod.mk.inj hrun
    exact hsame
  | ok w' =>
    rw [hstep] at hchange
    rw [run_bind_of_ok hchange] at hrun
    exact h w' hstep terminal _ found after hrun rfl

/-- Printing cannot fail. -/
theorem leaves_say (line : String) (h : done w) : Leaves (say line) old w done :=
  (reads_say line).leaves (fun _ => h) fun herror => absurd rfl herror

theorem Leaves.exitCode {session : Session} (h : Leaves action w w done) (terminal : Terminal)
    (hw : session.workspace = w) :
    ((action.outcome terminal session).exitCode ≠ 0 →
        w.SameFiles (action.outcome terminal session).session.workspace) ∧
      ((action.outcome terminal session).exitCode = 0 →
        done (action.outcome terminal session).session.workspace) := by
  cases hrun : (action terminal).run session with
  | mk found after =>
    have hfound := h terminal session found after hrun hw
    rw [outcome_eq hrun]
    cases found with
    | ok u => exact ⟨fun hcode => absurd rfl hcode, fun _ => hfound⟩
    | error failure =>
      refine ⟨fun _ => hfound, fun hcode => ?_⟩
      rcases failure with _ | _ | _ <;> cases hcode

end Action

/-! ## Requests -/

/-- Is some code the script for a file, laid out as the options ask? -/
def IsScriptOf (w : Workspace) (file : String) (options : EmitOptions) (code : String) : Prop :=
  ∃ e settings, Loads w file e settings ∧ (∀ width, options.width? = some width → 0 < width) ∧
    e.script { settings with width := options.width?.getD settings.width } = .ok code

/-- The settings that the options leave, unless they ask for a width that is not positive. -/
def overriding (options : EmitOptions) (settings : Settings) : Except Failure Settings :=
  match options.width? with
  | none => .ok settings
  | some width => if 0 < width then .ok { settings with width := width } else .error .reported

theorem reads_overridden (options : EmitOptions) (settings : Settings) :
    Reads false (overridden options settings) fun _ => overriding options settings := by
  unfold overridden overriding
  cases options.width? with
  | none => exact reads_pure settings
  | some width =>
    by_cases hwidth : 0 < width
    · simp only [if_pos hwidth]
      exact reads_pure _
    · simp only [if_neg hwidth]
      exact reads_refuse _

theorem overriding_eq_ok {options : EmitOptions} {settings found : Settings} :
    overriding options settings = .ok found ↔
      (∀ width, options.width? = some width → 0 < width) ∧
        found = { settings with width := options.width?.getD settings.width } := by
  unfold overriding
  cases options.width? with
  | none => simp [@eq_comm _ settings found]
  | some width => by_cases hwidth : 0 < width <;> simp [hwidth, eq_comm]

theorem leaves_emit (w : Workspace) (file : String) (options : EmitOptions) :
    Leaves (emit file options) w w fun w' =>
      match options.output? with
      | none => w.SameFiles w'
      | some output => ∃ code, IsScriptOf w file options code ∧
          w.Wrote (w.resolved output) (code ++ "\n").toUTF8 w' := by
  apply (reads_load file).leaves_bind (.refl w)
  rintro ⟨e, settings⟩ hloaded
  apply (reads_overridden options settings).leaves_bind (.refl w)
  intro found hfound
  obtain ⟨hwidth, rfl⟩ := overriding_eq_ok.mp hfound
  apply (reads_generate file _ e).leaves_bind (.refl w)
  intro code hcode
  have hscript : IsScriptOf w file options code :=
    ⟨e, settings, loaded_eq_ok.mp hloaded, hwidth, mapError_eq_ok.mp hcode⟩
  cases options.output? with
  | none => exact leaves_say code (.refl w)
  | some output =>
    apply leaves_change_bind (.refl w)
    intro w' hwrite
    have hwrote := Workspace.wrote_writeFile (PathName.isNormal_ofString output) hwrite
    exact leaves_say _ ⟨code, hscript, hwrote⟩

/-- The settings file that `init` makes for a path. -/
def initTarget (path : String) : PathName := (PathName.ofString path).child Settings.fileName

theorem leaves_init (w : Workspace) (path : String) :
    Leaves (init path) w w fun w' => w.exists? (initTarget path).written = false ∧
      w.Wrote ((initTarget path).locationFrom w.directory) Settings.defaultText.toUTF8 w' := by
  have hnormal : (initTarget path).IsNormal :=
    (PathName.isNormal_ofString path).child (by decide +kernel)
  apply reads_workspace.leaves_bind (.refl w)
  rintro _ ⟨⟩
  change Leaves (if w.exists? (initTarget path).written = true then _ else _) w w _
  split
  · exact (reads_refuse _).leaves_bind (.refl w) nofun
  · rename_i hexists
    apply leaves_change_bind (.refl w)
    intro w' hmake
    have hsame := Workspace.sameFiles_makeDirectories hmake
    apply leaves_change_bind hsame
    intro w'' hwrite
    have hwrote := Workspace.wrote_writeFile hnormal hwrite
    rw [hsame.directory] at hwrote
    exact leaves_say _ ⟨Bool.eq_false_of_not_eq_true hexists, hsame.wrote hwrote⟩

/-- What a request that succeeds leaves of the files. A new settings file takes the place of nothing
unless its path climbs out of a directory that does not exist. -/
def Request.Done (w : Workspace) : Request → Workspace → Prop
  | .emit file options, w' =>
    match options.output? with
    | none => w.SameFiles w'
    | some output => ∃ code, IsScriptOf w file options code ∧
        w.Wrote (w.resolved output) (code ++ "\n").toUTF8 w'
  | .check _, w' => w.SameFiles w'
  | .view _, w' => w.SameFiles w'
  | .init path, w' =>
    let location := (initTarget path).locationFrom w.directory
    w.exists? (initTarget path).written = false ∧
      w.Wrote location Settings.defaultText.toUTF8 w' ∧
      (".." ∉ (PathName.ofString path).names ∨ w.isDirectory (opened path) = true →
        w.tree.at? location = none)

theorem leaves_perform (w : Workspace) (request : Request) :
    Leaves request.perform w w (request.Done w) := by
  cases request with
  | emit file options => exact leaves_emit w file options
  | check file => exact (reads_check file).leaves (fun _ => .refl w) fun _ => .refl w
  | view file => exact (reads_view file).leaves (fun _ => .refl w) fun _ => .refl w
  | init path =>
    apply (leaves_init w path).imp
    rintro w' ⟨hmissing, hwrote⟩
    exact ⟨hmissing, hwrote, Workspace.at?_child_eq_none (PathName.isNormal_ofString path)
      (by decide +kernel) (by decide +kernel) hmissing⟩

theorem leaves_refuseUsage (w : Workspace) {done : Workspace → Prop} :
    Leaves refuseUsage w w done := by
  have hreads : Reads false refuseUsage fun _ => .error .usage :=
    (reads_complain usageLine).andThen (reads_throw nofun)
  exact hreads.leaves nofun fun _ => .refl w

/-- What an invocation that succeeds leaves of the files. -/
def Invocation.Done (w : Workspace) : Invocation → Workspace → Prop
  | .run _ request, w' => request.Done w w'
  | _, w' => w.SameFiles w'

theorem leaves_invocation (w : Workspace) (invocation : Invocation) :
    Leaves invocation.perform w w (invocation.Done w) := by
  cases invocation with
  | help => exact leaves_say usageLine (.refl w)
  | version => exact leaves_say versionLine (.refl w)
  | run verbose request =>
    apply reads_workspace.leaves_bind (.refl w)
    rintro _ ⟨⟩
    split
    · exact leaves_perform w request
    · exact leaves_refuseUsage w

/-- A run that fails leaves all files as they were, whatever its arguments are and wherever it
fails. A run that succeeds writes one file at most: `emit` the generated script and a newline to its
output file, and `init` the defaults to its settings file. -/
theorem files_after_run (color : Bool) (args : List String) (w : Workspace) :
    let outcome := run color args w
    (outcome.exitCode ≠ 0 → w.SameFiles outcome.session.workspace) ∧
      (outcome.exitCode = 0 → ∃ invocation, Invocation.ofArgs? args = some invocation ∧
        invocation.Done w outcome.session.workspace) := by
  have hrun : ∀ invocation? : Option Invocation,
      Leaves ((invocation?.map Invocation.perform).getD refuseUsage) w w fun w' =>
        ∃ invocation, invocation? = some invocation ∧ invocation.Done w w' := by
    intro invocation?
    cases invocation? with
    | none => exact leaves_refuseUsage w
    | some invocation =>
      exact (leaves_invocation w invocation).imp fun w' hdone => ⟨invocation, rfl, hdone⟩
  exact (hrun (Invocation.ofArgs? args)).exitCode _ rfl

/-- A settings file in `b`, beside which there is no `a`. -/
def besideMissing : Workspace where
  tree :=
    .directory [("b", .directory [(Settings.fileName, .file "[format]\nwidth = 100\n".toUTF8)])]
  directory := []

/-- The path of the new settings file leads nowhere until `a` is made, and then to the old one. -/
theorem files_after_run_climbing :
    (run false ["init", "a/../b"] besideMissing).exitCode = 0 ∧
      besideMissing.tree.fileAt? ["b", Settings.fileName] =
        some "[format]\nwidth = 100\n".toUTF8 ∧
      (run false ["init", "a/../b"] besideMissing).session.workspace.tree.fileAt?
        ["b", Settings.fileName] = some Settings.defaultText.toUTF8 := by
  have hexit : (run false ["init", "a/../b"] besideMissing).exitCode = 0 := by decide +kernel
  have hargs : Invocation.ofArgs? ["init", "a/../b"] = some (.run false (.init "a/../b")) := by
    decide +kernel
  have hlocation : (initTarget "a/../b").locationFrom [] = ["b", Settings.fileName] := by
    decide +kernel
  obtain ⟨-, hdone⟩ := files_after_run false ["init", "a/../b"] besideMissing
  obtain ⟨invocation, hinvocation, hdone⟩ := hdone hexit
  rw [hargs] at hinvocation
  obtain rfl := Option.some.inj hinvocation
  obtain ⟨-, hwrote, -⟩ := hdone
  refine ⟨hexit, rfl, ?_⟩
  have hdirectory : besideMissing.directory = [] := rfl
  rw [hwrote.files, hdirectory, hlocation, Function.update_self]

end Command
end CaseScript
