import CaseScript.Command.Invocation
import CaseScript.Command.Session
import CaseScript.Diagnostic.Report
import CaseScript.Expr.Outline
import CaseScript.Expr.Source
import CaseScript.Script.Emitter
import CaseScript.Settings.Discovery
import CaseScript.Text.LineEnd

/-!
# Runs of the command

Each request reads the settings first and its source next, and writes files only as its very last
step. So a run that fails leaves all files as they were.
-/

namespace CaseScript
namespace Command

/-- The path that a file is opened under. -/
def opened (path : String) : String := (PathName.ofString path).written

def report (fileName : String) (diagnostics : List Diagnostic) : Action Unit :=
  diagnostics.forM fun d => Action.complain (d.report true fileName)

/-- The settings for a file. -/
def loadSettings (file : String) : Action Settings := do
  let w ← Action.workspace
  match Settings.find? w file with
  | none =>
    Action.log "jsmatch.config" ("no " ++ Settings.fileName ++ " found, using defaults")
    return {}
  | some location =>
    Action.log "jsmatch.config" ("using config " ++ location.written)
    Action.descend (w.fitsSettings location)
    match Settings.load w.tree location with
    | .ok settings => return settings
    | .error (.file fault) => throw (.breakdown (.file fault))
    | .error (.content (.notTable value)) => throw (.breakdown (.notTable value))
    | .error (.content fault) => Action.refuse (fault.message location.written)

def loadText (file : String) : Action String := do
  let w ← Action.workspace
  let bytes ← Action.reading (w.readFile (opened file))
  Action.descend (w.stack.source bytes)
  match Text.ofFile? bytes with
  | some text => return text
  | none => throw (.breakdown .notUtf8)

/-- The tree in a source file and the settings for it. -/
def load (file : String) : Action (Expr × Settings) := do
  let settings ← loadSettings file
  match Expr.ofSource (← loadText file) with
  | .error (.oversized count) => throw (.breakdown (.oversized count))
  | .error fault =>
    report file fault.diagnostics
    throw .reported
  | .ok e =>
    Action.log "jsmatch.cli"
      ("decoded " ++ file ++ " (width " ++ toString settings.width ++ ")")
    return (e, settings)

/-- The script for a tree. Its warnings are reported only if there is a script. -/
def generate (file : String) (settings : Settings) (e : Expr) : Action String := do
  let emission := e.emission settings
  emission.decisions.forM fun decision => Action.log "jsmatch.js_emitter" decision.logLine
  match e.script settings with
  | .error fault =>
    report file [fault.diagnostic]
    throw .reported
  | .ok code =>
    report file emission.warnings
    return code

/-- The settings with the width that the options ask for. -/
def overridden (options : EmitOptions) (settings : Settings) : Action Settings :=
  match options.width? with
  | none => return settings
  | some width =>
    if 0 < width then return { settings with width := width }
    else Action.refuse "--width must be positive"

def writeText (path text : String) : Action Unit :=
  Action.change (·.writeFile path text.toUTF8)

/-- Generates a script and writes it to a file or prints it, without highlights. -/
def emit (file : String) (options : EmitOptions) : Action Unit := do
  let (e, settings) ← load file
  let code ← generate file (← overridden options settings) e
  match options.output? with
  | none => Action.say code
  | some output =>
    writeText (opened output) (code ++ "\n")
    Action.say ("wrote " ++ output)

/-- Generates a script for its diagnostics alone. -/
def check (file : String) : Action Unit := do
  let (e, settings) ← load file
  let _ ← generate file settings e
  Action.say ("checked " ++ file ++ " — no errors")

/-- Prints the outline of a tree. -/
def view (file : String) : Action Unit := do
  let (e, _) ← load file
  (e.outline.lines 0).forM Action.say

/-- Writes a settings file with the defaults. -/
def init (path : String) : Action Unit := do
  let target := (PathName.ofString path).child Settings.fileName
  if (← Action.workspace).exists? target.written then
    Action.refuse (target.written ++ " already exists")
  Action.change (·.makeDirectories target.parent)
  writeText target.written Settings.defaultText
  Action.say ("created " ++ target.written)

namespace Request

def perform : Request → Action Unit
  | .emit file options => Command.emit file options
  | .check file => Command.check file
  | .view file => Command.view file
  | .init path => Command.init path

end Request

def versionLine : String := "jsmatch, version 0.1.0"

def usageLine : String :=
  "Usage: jsmatch [-v] (emit [--width N] [--color] [-o PATH] FILE | check FILE | view FILE | " ++
    "init [PATH])"

def refuseUsage : Action Unit := do
  Action.complain usageLine
  throw .usage

namespace Invocation

def isVerbose : Invocation → Bool
  | run verbose _ => verbose
  | _ => false

def perform : Invocation → Action Unit
  | help => Action.say usageLine
  | version => Action.say versionLine
  | run _ request => do
    if request.fits (← Action.workspace) then request.perform else refuseUsage

end Invocation

/-- How a run ends, and what it leaves behind. -/
structure Outcome where
  failure? : Option Failure
  session : Session

namespace Outcome

def exitCode (outcome : Outcome) : Nat :=
  match outcome.failure? with
  | none => 0
  | some failure => failure.exitCode

end Outcome

/-- What an action on a session comes to. -/
def Action.outcome (action : Action Unit) (terminal : Terminal) (session : Session) : Outcome :=
  match (action terminal).run session with
  | (.ok (), session) => ⟨none, session⟩
  | (.error failure, session) => ⟨some failure, session⟩

/-- Runs the command with some arguments in a workspace. -/
def run (color : Bool) (args : List String) (w : Workspace) : Outcome :=
  let invocation? := Invocation.ofArgs? args
  let action := (invocation?.map Invocation.perform).getD refuseUsage
  action.outcome ⟨color, invocation?.any Invocation.isVerbose⟩ { workspace := w }

end Command
end CaseScript
