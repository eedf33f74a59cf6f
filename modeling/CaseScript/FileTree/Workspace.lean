import CaseScript.FileTree.PathName
import CaseScript.Limits

/-!
# Workspaces

A workspace is a file tree with a working directory, and with the stack of a program that works
there. Its operations take paths as users write them, and each step of a path has to start from a
directory.
-/

namespace CaseScript

structure Workspace where
  tree : FileTree
  directory : Location
  stack : Stack := {}

namespace Workspace

variable (w : Workspace)

/-- Follows steps from a location. The last one may lead to nothing. -/
def follow (location : Location) : List String → Except FileFault Location
  | [] => .ok location
  | step :: rest =>
    match w.tree.at? location with
    | none => .error .notFound
    | some (.file _) => .error .notADirectory
    | some (.directory _) =>
      if step = "" ∨ step = "." then follow location rest
      else if step = ".." then follow location.dropLast rest
      else follow (location ++ [step]) rest

/-- The location that a written path leads to. An empty path leads nowhere. -/
def locate (path : String) : Except FileFault Location :=
  if path = "" then .error .notFound
  else w.follow (if path.toList.head? == some '/' then [] else w.directory) (pathSteps path)

/-- The file or directory that a written path names. -/
def entry (path : String) : Except FileFault FileTree := do
  match w.tree.at? (← w.locate path) with
  | some entry => .ok entry
  | none => .error .notFound

def exists? (path : String) : Bool :=
  match w.entry path with
  | .ok _ => true
  | .error _ => false

def isFile (path : String) : Bool :=
  match w.entry path with
  | .ok entry => entry.isFile
  | .error _ => false

def isDirectory (path : String) : Bool :=
  match w.entry path with
  | .ok entry => entry.isDirectory
  | .error _ => false

def readFile (path : String) : Except FileFault ByteArray := do
  match ← w.entry path with
  | .file bytes => .ok bytes
  | .directory _ => .error .isADirectory

/-- Does the stack suffice for the settings file at a location, if there is a file? -/
def fitsSettings (location : Location) : Bool :=
  match w.tree.at? location with
  | some (.file bytes) => w.stack.settings bytes
  | _ => true

/-- Makes a file or replaces its bytes. -/
def writeFile (path : String) (bytes : ByteArray) : Except FileFault Workspace := do
  let location ← w.locate path
  match w.tree.at? location with
  | some (.directory _) => .error .isADirectory
  | _ => .ok { w with tree := .put (.file bytes) location w.tree }

def makeDirectory (path : String) : Except FileFault Workspace := do
  let location ← w.locate path
  match w.tree.at? location with
  | some _ => .error .exists
  | none => .ok { w with tree := .put .empty location w.tree }

/-- A directory that cannot be made may be there already. -/
def orDirectory (path : String) (result : Except FileFault Workspace) :
    Except FileFault Workspace :=
  match result with
  | .ok w => .ok w
  | .error .notFound => .error .notFound
  | .error fault => if w.isDirectory path then .ok w else .error fault

/-- Makes a directory and the directories above it where they are missing. The names of the path are
given innermost first. -/
def makeDirectoriesUp (absolute : Bool) (w : Workspace) : List String → Except FileFault Workspace
  | [] =>
    let path := (PathName.mk absolute []).written
    w.orDirectory path (w.makeDirectory path)
  | name :: outer =>
    let path := (PathName.mk absolute (name :: outer).reverse).written
    match w.orDirectory path (w.makeDirectory path) with
    | .error .notFound => do
      let w ← makeDirectoriesUp absolute w outer
      w.orDirectory path (w.makeDirectory path)
    | result => result

def makeDirectories (path : PathName) : Except FileFault Workspace :=
  makeDirectoriesUp path.absolute w path.names.reverse

end Workspace
end CaseScript
