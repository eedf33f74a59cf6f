import CaseScript.FileTree.Workspace
import CaseScript.Settings.OfToml
import CaseScript.Text.Ansi

/-!
# Sessions

A session is what a running command works on: the workspace and what it has printed so far. A step
of a command that fails leaves the session as it was when the failure occurred.
-/

namespace CaseScript
namespace Command

/-- How a command talks to its terminal. -/
structure Terminal where
  /-- Does the terminal show colours? If not, escape sequences are left out of what is printed. -/
  color : Bool := false
  verbose : Bool := false
  deriving DecidableEq, Repr

structure Session where
  workspace : Workspace
  /-- What went to the standard output. -/
  out : String := ""
  /-- What went to the standard error output. -/
  err : String := ""

/-- What breaks a run off without a report. -/
inductive Breakdown where
  | file (fault : FileFault)
  /-- A source file is not UTF-8. -/
  | notUtf8
  /-- A section of a settings file is not a table. -/
  | notTable (value : Toml.Value)
  /-- A numeral of a source has `count` digits, which are too many. -/
  | oversized (count : Nat)
  /-- The stack does not suffice for a file. -/
  | tooDeep

def Breakdown.message : Breakdown → String
  | file .notFound => "No such file or directory"
  | file .notADirectory => "Not a directory"
  | file .isADirectory => "Is a directory"
  | file .exists => "File exists"
  | notUtf8 => "Not a text in UTF-8"
  | notTable value => (Settings.Fault.notTable value).message Settings.fileName
  | oversized count => oversizedMessage count
  | tooDeep => "maximum recursion depth exceeded"

/-- Why a run fails. -/
inductive Failure where
  /-- The arguments make no invocation, or one that does not fit the workspace. -/
  | usage
  /-- What is wrong has been printed. -/
  | reported
  | breakdown (cause : Breakdown)

def Failure.exitCode : Failure → Nat
  | usage => 2
  | reported => 1
  | breakdown _ => 1

abbrev Action := ReaderT Terminal (ExceptT Failure (StateM Session))

namespace Terminal

def shown (terminal : Terminal) (text : String) : String :=
  if terminal.color then text else Text.plain text

end Terminal

namespace Action

/-- Prints a line to the standard output. -/
def say (line : String) : Action Unit := do
  let terminal ← read
  modify fun s => { s with out := s.out ++ terminal.shown line ++ "\n" }

/-- Prints a line to the standard error output. -/
def complain (line : String) : Action Unit := do
  let terminal ← read
  modify fun s => { s with err := s.err ++ terminal.shown line ++ "\n" }

/-- Logs a message of a part of the program, if the terminal wants to see it. A log line keeps its
escape sequences. -/
def log (part message : String) : Action Unit := do
  if (← read).verbose then
    modify fun s => { s with err := s.err ++ "DEBUG " ++ part ++ ": " ++ message ++ "\n" }

/-- Says what is wrong and fails. -/
def refuse {α : Type} (reason : String) : Action α := do
  complain ("error: " ++ reason)
  throw .reported

def workspace : Action Workspace := return (← get).workspace

/-- A result of reading files. -/
def reading {α : Type} (result : Except FileFault α) : Action α :=
  match result with
  | .ok a => pure a
  | .error fault => throw (.breakdown (.file fault))

/-- Breaks a run off that the stack does not suffice for. -/
def descend (fits : Bool) : Action Unit :=
  if fits then pure () else throw (.breakdown .tooDeep)

/-- A change to the workspace, which may fail. -/
def change (f : Workspace → Except FileFault Workspace) : Action Unit := do
  let changed ← reading (f (← workspace))
  modify fun s => { s with workspace := changed }

@[simp] theorem run_say (line : String) (terminal : Terminal) (session : Session) :
    (say line terminal).run session =
      (.ok (), { session with out := session.out ++ terminal.shown line ++ "\n" }) := rfl

@[simp] theorem run_complain (line : String) (terminal : Terminal) (session : Session) :
    (complain line terminal).run session =
      (.ok (), { session with err := session.err ++ terminal.shown line ++ "\n" }) := rfl

@[simp] theorem run_refuse {α : Type} (reason : String) (terminal : Terminal) (session : Session) :
    (refuse reason terminal : ExceptT Failure (StateM Session) α).run session =
      (.error .reported,
        { session with err := session.err ++ terminal.shown ("error: " ++ reason) ++ "\n" }) := rfl

/-- A change that fails leaves the session as it is. -/
theorem run_change (f : Workspace → Except FileFault Workspace) (terminal : Terminal)
    (session : Session) :
    (change f terminal).run session =
      match f session.workspace with
      | .ok w => (.ok (), { session with workspace := w })
      | .error fault => (.error (.breakdown (.file fault)), session) := by
  have h : (change f terminal).run session =
      ((reading (f session.workspace) >>= fun w : Workspace =>
        modify fun s => { s with workspace := w }) terminal).run session := rfl
  rw [h]
  cases f session.workspace <;> rfl

end Action
end Command
end CaseScript
