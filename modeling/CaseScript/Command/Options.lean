/-!
# Options among arguments

An argument that starts with a hyphen is an option, by its long name or as a cluster of single
characters. Some options take a value: the rest of their own argument or the whole next one.
Everything else is an operand, and so is everything after a double hyphen.
-/

namespace CaseScript
namespace Command

/-- What an option stands for, which may depend on a value. -/
inductive Switch (α : Type) where
  | flag (meaning : α)
  | valued (meaning : String → α)

/-- The options that a command knows. -/
structure OptionTable (α : Type) where
  long : List (String × Switch α)
  short : List (Char × Switch α) := []
  /-- May options follow an operand? If not, the first operand ends them. -/
  interspersed : Bool := true

/-- The options of an argument list in their order, and its operands. -/
structure Arguments (α : Type) where
  options : List α := []
  operands : List String := []
  deriving DecidableEq, Repr

namespace OptionTable

variable {α : Type} (table : OptionTable α)

/-- The options in one argument. The last of them may still await its value. -/
abbrev Reading (α : Type) := List α × Option (String → α)

/-- Reads an argument as a long option: a name and, after an equals sign, a value. -/
def readLong? (arg : List Char) : Option (Reading α) :=
  let name := String.ofList (arg.takeWhile (· ≠ '='))
  match table.long.lookup name, arg.dropWhile (· ≠ '=') with
  | some (.flag meaning), [] => some ([meaning], none)
  | some (.valued meaning), [] => some ([], some meaning)
  | some (.valued meaning), _ :: value => some ([meaning (String.ofList value)], none)
  | _, _ => none

/-- Reads a cluster of single characters. What follows an option that takes a value is that
value. -/
def readCluster? : List Char → Option (Reading α)
  | [] => some ([], none)
  | c :: rest =>
    match table.short.lookup c with
    | some (.flag meaning) =>
      (readCluster? rest).map fun (options, awaiting) => (meaning :: options, awaiting)
    | some (.valued meaning) =>
      if rest.isEmpty then some ([], some meaning)
      else some ([meaning (String.ofList rest)], none)
    | none => none

/-- Reads an argument that starts with a hyphen. -/
def readOption? (arg : List Char) : Option (Reading α) :=
  match arg with
  | '-' :: '-' :: _ => table.readLong? arg
  | _ => table.readCluster? arg.tail

/-- A hyphen alone is an operand. -/
def isOption : List Char → Bool
  | '-' :: _ :: _ => true
  | _ => false

/-- Reads arguments from the left; `awaiting` is an option before them that still lacks its
value. -/
def readFrom? (awaiting : Option (String → α)) : List String → Option (Arguments α)
  | [] => if awaiting.isSome then none else some {}
  | arg :: rest =>
    match awaiting with
    | some meaning =>
      (readFrom? none rest).map fun read => { read with options := meaning arg :: read.options }
    | none =>
      if arg = "--" then some { operands := rest }
      else if isOption arg.toList then
        match table.readOption? arg.toList with
        | none => none
        | some (options, awaiting) =>
          (readFrom? awaiting rest).map fun read => { read with options := options ++ read.options }
      else if table.interspersed then
        (readFrom? none rest).map fun read => { read with operands := arg :: read.operands }
      else some { operands := arg :: rest }

/-- The options and operands of an argument list, unless it has an option that the table does not
allow. -/
def read? (args : List String) : Option (Arguments α) := table.readFrom? none args

end OptionTable
end Command
end CaseScript
