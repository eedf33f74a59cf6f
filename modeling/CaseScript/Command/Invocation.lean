import CaseScript.Command.Options
import CaseScript.FileTree.Workspace
import CaseScript.Text.Numeral

/-!
# Invocations of the command

The arguments of an invocation ask for one of four requests, for the version, or for help.
-/

namespace CaseScript
namespace Command

/-- How `emit` lays out its script and where the script goes. -/
structure EmitOptions where
  width? : Option Int := none
  /-- Is the script to be highlighted? That is left to the lexer of another library, which is left
  out here: scripts are printed as they are. -/
  color : Bool := false
  output? : Option String := none
  deriving DecidableEq, Repr

inductive Request where
  | emit (file : String) (options : EmitOptions)
  | check (file : String)
  | view (file : String)
  | init (path : String)
  deriving DecidableEq, Repr

inductive Invocation where
  | help
  | version
  | run (verbose : Bool) (request : Request)
  deriving DecidableEq, Repr

/-- An option before the name of a request. -/
inductive GlobalOption where
  | verbose
  | version
  | help
  deriving DecidableEq, Repr

def globalTable : OptionTable GlobalOption where
  long := [("--verbose", .flag .verbose), ("--version", .flag .version), ("--help", .flag .help)]
  short := [('v', .flag .verbose)]
  interspersed := false

inductive EmitOption where
  | width (numeral : String)
  | color
  | output (path : String)
  | help
  deriving DecidableEq, Repr

def emitTable : OptionTable EmitOption where
  long :=
    [("--width", .valued .width), ("--color", .flag .color), ("--output", .valued .output),
      ("--help", .flag .help)]
  short := [('o', .valued .output)]

/-- The options of a request that has none of its own. -/
def plainTable : OptionTable Unit where
  long := [("--help", .flag ())]

namespace EmitOption

def numeral? : EmitOption → Option String
  | width numeral => some numeral
  | _ => none

def path? : EmitOption → Option String
  | output path => some path
  | _ => none

end EmitOption

/-- Of a repeated option the last one counts. -/
def EmitOptions.ofList? (options : List EmitOption) : Option EmitOptions := do
  let last := options.reverse
  let width? ← match last.findSome? EmitOption.numeral? with
    | none => pure none
    | some numeral => (Text.readInt? numeral).map some
  return { width?, color := options.contains .color, output? := last.findSome? EmitOption.path? }

namespace Invocation

/-- The one operand that a request takes. -/
def single? : List String → Option String
  | [operand] => some operand
  | _ => none

/-- An invocation of `emit`. A call for help comes before what is wrong with values and operands. -/
def ofEmit? (verbose : Bool) (args : List String) : Option Invocation := do
  let read ← emitTable.read? args
  if read.options.contains .help then return help
  let file ← single? read.operands
  return run verbose (.emit file (← EmitOptions.ofList? read.options))

/-- An invocation of a request without options of its own. -/
def ofPlain? (verbose : Bool) (request? : List String → Option Request) (args : List String) :
    Option Invocation := do
  let read ← plainTable.read? args
  if !read.options.isEmpty then return help
  return run verbose (← request? read.operands)

/-- The invocation that options before a request ask for by themselves; the first of them counts. -/
def ofOptions? (options : List GlobalOption) : Option Invocation :=
  options.findSome? fun
    | .verbose => none
    | .version => some version
    | .help => some help

/-- An invocation by the name of a request. What is no such name may still be an option that a
double hyphen has kept from being read as one. -/
def ofRequest? (verbose : Bool) (name : String) (args : List String) : Option Invocation :=
  match name with
  | "emit" => ofEmit? verbose args
  | "check" => ofPlain? verbose (fun operands => (single? operands).map .check) args
  | "view" => ofPlain? verbose (fun operands => (single? operands).map .view) args
  | "init" =>
    ofPlain? verbose
      (fun operands => if operands.isEmpty then some (.init ".") else (single? operands).map .init)
      args
  | _ => do ofOptions? (← globalTable.read? (name :: args)).options

/-- The invocation that an argument list makes, if it makes one. -/
def ofArgs? (args : List String) : Option Invocation := do
  let read ← globalTable.read? args
  match ofOptions? read.options, read.operands with
  | some invocation, _ => return invocation
  | none, name :: rest => ofRequest? (read.options.contains .verbose) name rest
  | none, [] => none

example : ofArgs? ["--", "-v", "--version"] = some version := by decide +kernel
example : ofArgs? ["--", "-v", "init"] = none := by decide +kernel

end Invocation

/-- Can the paths of a request be used as it asks? A file to read has to be there, and what is there
must not be a directory where a file is meant, or a file where a directory is meant. -/
def Request.fits (w : Workspace) : Request → Bool
  | emit file options =>
    w.exists? file && !w.isDirectory file && (options.output?.all fun path => !w.isDirectory path)
  | check file => w.exists? file && !w.isDirectory file
  | view file => w.exists? file && !w.isDirectory file
  | init path => !w.isFile path

end Command
end CaseScript
