import CaseScript.Command.Run

/-!
# The command line

Copies what the arguments may refer to into a workspace, runs the command there, and brings the
files that have changed and the printed text back.
-/

namespace CaseScript
namespace Command

/-- The number of the error that reading a directory as a file gives. -/
def isADirectoryCode : UInt32 := 21

/-- What stands at a location outside; a directory comes without its entries. -/
def lookAt (location : Location) : IO (Option FileTree) := do
  match ← (IO.FS.readBinFile location.written).toBaseIO with
  | .ok bytes => return some (.file bytes)
  | .error (.inappropriateType _ code _) =>
    return if code = isADirectoryCode then some .empty else none
  | .error _ => return none

/-- The paths that an argument may hold: the whole of it or the value of an option. -/
def pathsIn (arg : String) : List String :=
  let chars := arg.toList
  [arg, String.ofList (chars.drop 2), String.ofList ((chars.dropWhile (· ≠ '=')).drop 1)]

/-- The locations on the way along a path. -/
def waypoints (start : Location) (path : PathName) : List Location :=
  (List.range (path.names.length + 1)).map fun n =>
    { path with names := path.names.take n }.locationFrom start

/-- A location after the directories above it, each with its settings file. -/
def withOuter (location : Location) : List Location :=
  (List.range (location.length + 1)).flatMap fun n =>
    [location.take n, location.take n ++ [Settings.fileName]]

def copy (tree : FileTree) (location : Location) : IO FileTree := do
  if (tree.at? location).isSome then return tree
  match ← lookAt location with
  | some entry => return .put entry location tree
  | none => return tree

/-- The part of the files outside that the arguments may refer to. -/
def snapshot (directory : Location) (args : List String) : IO Workspace := do
  let paths := (args.flatMap pathsIn).map PathName.ofString
  let ways := paths.flatMap fun path =>
    waypoints directory path ++ waypoints directory (path.child Settings.fileName)
  let tree ← ((directory :: ways).flatMap withOuter).foldlM copy FileTree.empty
  return { tree, directory }

def save (location : Location) (bytes : ByteArray) : IO Unit := do
  IO.FS.createDirAll (Location.written location.dropLast)
  IO.FS.writeBinFile location.written bytes

/-- Runs the command on the files outside and gives its exit code. -/
def execute (args : List String) : IO UInt32 := do
  let directory := (PathName.ofString (toString (← IO.currentDir))).names
  let before ← snapshot directory args
  let color ← (← IO.getStdout).isTty
  let outcome := run color args before
  for (location, bytes) in before.tree.changes outcome.session.workspace.tree do
    save location bytes
  IO.eprint outcome.session.err
  IO.print outcome.session.out
  match outcome.failure? with
  | some (.breakdown cause) => IO.eprintln ("error: " ++ cause.message)
  | _ => pure ()
  return outcome.exitCode.toUInt32

end Command
end CaseScript

def main (args : List String) : IO UInt32 := CaseScript.Command.execute args
