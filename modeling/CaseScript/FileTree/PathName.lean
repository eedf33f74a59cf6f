import CaseScript.FileTree.Basic

/-!
# Path names

A path as a user writes it names an entry step by step from the working directory or, with a slash
in front, from the root. A path name is its normal form, without empty steps and without single
periods.
-/

namespace CaseScript

/-- The steps of a written path: what stands between its slashes. -/
def pathSteps (path : String) : List String := (path.splitToList (· == '/'))

structure PathName where
  absolute : Bool
  names : List String
  deriving DecidableEq, Repr

namespace PathName

def ofString (path : String) : PathName where
  absolute := path.toList.head? == some '/'
  names := (pathSteps path).filter fun step => step ≠ "" && step ≠ "."

/-- The path of an entry in the directory that is named. -/
def child (path : PathName) (name : String) : PathName :=
  { path with names := path.names ++ [name] }

/-- The path without its last name. -/
def parent (path : PathName) : PathName := { path with names := path.names.dropLast }

/-- No names at all stand for the working directory. -/
def written (path : PathName) : String :=
  if path.absolute then "/" ++ "/".intercalate path.names
  else if path.names.isEmpty then "."
  else "/".intercalate path.names

/-- The location that the names lead to if every name but `..` is a directory. -/
def locationFrom (start : Location) (path : PathName) : Location :=
  path.names.foldl
    (fun location name => if name = ".." then location.dropLast else location ++ [name])
    (if path.absolute then [] else start)

example : (ofString "./x//../y/").written = "x/../y" := by decide +kernel
example : (ofString "").written = "." := by decide +kernel

end PathName

/-- The absolute path of a location. -/
def Location.written (location : Location) : String := (PathName.mk true location).written

end CaseScript
