import CaseScript.Proofs.Command.Actions
import CaseScript.Proofs.Except
import CaseScript.Proofs.Expr.Pruning
import CaseScript.Proofs.Settings.Discovery

/-!
# Loading a source file

What comes of loading a source file and of generating its script, told from the workspace alone. A
run of the command that has nothing to write only reads.
-/

namespace CaseScript
namespace Command

open Command.Action

/-! ## What comes of loading -/

/-- How the settings that cannot be had end a run. -/
def settingsFailure : Settings.LoadFault → Failure
  | .file fault => .breakdown (.file fault)
  | .content (.notTable value) => .breakdown (.notTable value)
  | .content _ => .reported

/-- How a source that holds no tree ends a run. -/
def sourceFailure : SourceFault → Failure
  | .oversized count => .breakdown (.oversized count)
  | _ => .reported

def descended (fits : Bool) : Except Failure Unit :=
  if fits then .ok () else .error (.breakdown .tooDeep)

def foundSettings (w : Workspace) (file : String) : Except Failure Settings := do
  descended ((Settings.find? w file).all w.fitsSettings)
  (Settings.discover w file).mapError settingsFailure

def sourceText (w : Workspace) (file : String) : Except Failure String := do
  let bytes ← (w.readFile (opened file)).mapError fun fault => .breakdown (.file fault)
  descended (w.stack.source bytes)
  match Text.ofFile? bytes with
  | some text => .ok text
  | none => .error (.breakdown .notUtf8)

def loaded (w : Workspace) (file : String) : Except Failure (Expr × Settings) := do
  let settings ← foundSettings w file
  let text ← sourceText w file
  let e ← (Expr.ofSource text).mapError sourceFailure
  .ok (e, settings)

/-- Does a source file hold a tree, and which are the settings for it? -/
structure Loads (w : Workspace) (file : String) (e : Expr) (settings : Settings) : Prop where
  fits : (Settings.find? w file).all w.fitsSettings = true
  discovered : Settings.discover w file = .ok settings
  source : ∃ bytes text, w.readFile (opened file) = .ok bytes ∧ w.stack.source bytes = true ∧
    Text.ofFile? bytes = some text ∧ Expr.ofSource text = .ok e

variable {quiet : Bool} {w : Workspace} {file : String} {e : Expr} {settings : Settings}

theorem descended_eq_ok {fits : Bool} {u : Unit} : descended fits = .ok u ↔ fits = true := by
  cases fits <;> simp [descended]

theorem descended_eq_error {fits : Bool} {failure : Failure} :
    descended fits = .error failure ↔ fits = false ∧ failure = .breakdown .tooDeep := by
  cases fits <;> simp [descended, eq_comm]

theorem reads_descend (fits : Bool) : Reads quiet (descend fits) fun _ => descended fits := by
  cases fits with
  | true => exact reads_pure ()
  | false => exact reads_breakdown .tooDeep

theorem reads_loadSettings (file : String) :
    Reads quiet (loadSettings file) fun w => foundSettings w file := by
  apply reads_workspace_bind
  intro w
  unfold foundSettings
  cases hfound : Settings.find? w file with
  | none =>
    rw [Settings.discover_of_find?_eq_none hfound]
    exact (reads_log _ _).andThen (reads_pure _)
  | some location =>
    rw [Settings.discover_of_find?_eq_some hfound]
    apply (reads_log _ _).andThen
    apply (reads_descend _).bind
    intro _
    cases Settings.load w.tree location with
    | ok settings => exact reads_pure settings
    | error fault =>
      cases fault with
      | file fault => exact reads_breakdown (.file fault)
      | content fault =>
        cases fault with
        | notTable value => exact reads_breakdown (.notTable value)
        | notUtf8 => exact reads_refuse _
        | notToml => exact reads_refuse _
        | badWidth => exact reads_refuse _
        | oversized count => exact reads_refuse _

theorem reads_loadText (file : String) :
    Reads quiet (loadText file) fun w => sourceText w file := by
  apply reads_workspace_bind
  intro w
  apply (reads_reading _).bind
  intro bytes
  apply (reads_descend _).bind
  intro _
  cases Text.ofFile? bytes with
  | none => exact reads_breakdown .notUtf8
  | some text => exact reads_pure text

theorem ofSource_eq_error {text : String} {fault : SourceFault} :
    Expr.ofSource text = .error fault ↔
      (∃ cause, Json.parse text = .error (.malformed cause) ∧ fault = .notJson text cause) ∨
      (∃ count, Json.parse text = .error (.oversized count) ∧ fault = .oversized count) ∨
      ∃ json, Json.parse text = .ok json ∧
        ∃ faults, Expr.decode json = .error faults ∧ fault = .badShape faults := by
  unfold Expr.ofSource
  cases hjson : Json.parse text with
  | error cause => cases cause <;> simp [eq_comm]
  | ok json =>
    simp only [reduceCtorEq, false_and, exists_false, false_or, Except.ok.injEq, exists_eq_left',
      mapError_eq_error]
    exact exists_congr fun faults => and_congr_right fun _ => eq_comm

/-- What is wrong with a source is an error, and there is always something to say, unless a numeral
in it has too many digits. -/
theorem severity_diagnostics {text : String} {fault : SourceFault}
    (h : Expr.ofSource text = .error fault) (hreported : sourceFailure fault = .reported) :
    fault.diagnostics ≠ [] ∧ ∀ d ∈ fault.diagnostics, d.severity = .error := by
  rcases ofSource_eq_error.mp h with ⟨cause, -, rfl⟩ | ⟨count, -, rfl⟩ |
    ⟨json, -, faults, hdecoded, rfl⟩
  · exact ⟨List.cons_ne_nil _ _, List.forall_mem_singleton.mpr rfl⟩
  · cases hreported
  · have hne := Decoded.Decides.faults_ne_nil Expr.decides_ofJson hdecoded
    exact ⟨List.map_eq_nil_iff.not.mpr hne, List.forall_mem_map.mpr fun _ _ => rfl⟩

theorem reads_load (file : String) : Reads quiet (load file) fun w => loaded w file := by
  apply (reads_loadSettings file).bind
  intro settings
  apply (reads_loadText file).bind
  intro text
  cases hsource : Expr.ofSource text with
  | error fault =>
    cases fault with
    | oversized count => exact reads_breakdown (.oversized count)
    | notJson source cause =>
      obtain ⟨hne, herror⟩ := severity_diagnostics hsource rfl
      exact reads_failing file hne herror
    | badShape faults =>
      obtain ⟨hne, herror⟩ := severity_diagnostics hsource rfl
      exact reads_failing file hne herror
  | ok e => exact (reads_log _ _).andThen (reads_pure (e, settings))

theorem foundSettings_eq_ok :
    foundSettings w file = .ok settings ↔
      (Settings.find? w file).all w.fitsSettings = true ∧
        Settings.discover w file = .ok settings := by
  simp only [foundSettings, except_bind_eq_ok, descended_eq_ok, mapError_eq_ok, exists_const]

theorem sourceText_eq_ok {text : String} :
    sourceText w file = .ok text ↔
      ∃ bytes, w.readFile (opened file) = .ok bytes ∧ w.stack.source bytes = true ∧
        Text.ofFile? bytes = some text := by
  simp only [sourceText, except_bind_eq_ok, mapError_eq_ok, descended_eq_ok, exists_const]
  apply exists_congr
  intro bytes
  cases Text.ofFile? bytes <;> simp

theorem loaded_eq_ok : loaded w file = .ok (e, settings) ↔ Loads w file e settings := by
  simp only [loaded, except_bind_eq_ok, mapError_eq_ok, foundSettings_eq_ok, sourceText_eq_ok]
  constructor
  · rintro ⟨found, ⟨hfits, hfound⟩, text, ⟨bytes, hbytes, hsuffices, htext⟩, tree, hsource, h⟩
    cases h
    exact ⟨hfits, hfound, bytes, text, hbytes, hsuffices, htext, hsource⟩
  · rintro ⟨hfits, hfound, bytes, text, hbytes, hsuffices, htext, hsource⟩
    exact ⟨settings, ⟨hfits, hfound⟩, text, ⟨bytes, hbytes, hsuffices, htext⟩, e, hsource, rfl⟩

/-! ## What comes of a run that only reads -/

/-- Generating a script fails with a report or not at all. -/
def generated (e : Expr) (settings : Settings) : Except Failure String :=
  (e.script settings).mapError fun _ => .reported

theorem severity_diagnostic (fault : NamingFault) : fault.diagnostic.severity = .error := by
  cases fault <;> rfl

theorem reads_generate (file : String) (settings : Settings) (e : Expr) :
    Reads quiet (generate file settings e) fun _ => generated e settings := by
  apply (reads_forM fun _ => reads_log _ _).andThen
  unfold generated
  cases e.script settings with
  | error fault =>
    exact reads_failing file (List.cons_ne_nil _ _)
      (List.forall_mem_singleton.mpr (severity_diagnostic fault))
  | ok code => exact (reads_report file _).andThen (reads_pure code)

theorem reads_check (file : String) :
    Reads false (check file) fun w => do
      let (e, settings) ← loaded w file
      let _ ← generated e settings
      return () :=
  (reads_load file).bind fun (e, settings) =>
    (reads_generate file settings e).bind fun _ => reads_say _

theorem reads_view (file : String) :
    Reads false (view file) fun w => do
      let _ ← loaded w file
      return () :=
  (reads_load file).bind fun _ => reads_forM fun _ => reads_say _

def failureOf {α : Type} : Except Failure α → Option Failure
  | .ok _ => none
  | .error failure => some failure

theorem outcome_eq {action : Action Unit} {terminal : Terminal} {session after : Session}
    {found : Except Failure Unit} (h : (action terminal).run session = (found, after)) :
    action.outcome terminal session = ⟨failureOf found, after⟩ := by
  rw [Action.outcome, h]
  cases found <;> rfl

/-- A request that fits the workspace is performed. -/
theorem run_eq {color verbose : Bool} {args : List String} {request : Request}
    (hargs : Invocation.ofArgs? args = some (.run verbose request))
    (hfits : request.fits w = true) :
    run color args w = request.perform.outcome ⟨color, verbose⟩ { workspace := w } := by
  have hworkspace : (workspace ⟨color, verbose⟩).run { workspace := w } =
    (.ok w, { workspace := w }) := rfl
  have hperform : ((Invocation.run verbose request).perform ⟨color, verbose⟩).run
      { workspace := w } = (request.perform ⟨color, verbose⟩).run { workspace := w } := by
    rw [Invocation.perform, run_bind_of_ok hworkspace, if_pos hfits]
  rw [run, hargs]
  exact (outcome_eq hperform).trans (outcome_eq rfl).symm

end Command
end CaseScript
