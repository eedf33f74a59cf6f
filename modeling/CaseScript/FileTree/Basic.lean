import CaseScript.Assoc

/-!
# File trees

A directory holds named files and directories. A location is the list of names on the way from the
root. Main facts: what is put at a location is found there, and nothing changes at a location that
branches off the way to it.
-/

namespace CaseScript

inductive FileTree where
  | file (bytes : ByteArray)
  | directory (entries : List (String × FileTree))

/-- The names on the way from the root, outermost first. -/
abbrev Location := List String

/-- Why an operation on files fails. -/
inductive FileFault where
  | notFound
  | notADirectory
  | isADirectory
  | exists
  deriving DecidableEq, Repr

namespace FileTree

instance : Inhabited FileTree := ⟨directory []⟩

def empty : FileTree := directory []

def isFile : FileTree → Bool
  | file _ => true
  | directory _ => false

def isDirectory : FileTree → Bool
  | file _ => false
  | directory _ => true

def entries : FileTree → List (String × FileTree)
  | file _ => []
  | directory entries => entries

/-- The file or directory at a location. -/
def at? : FileTree → Location → Option FileTree
  | tree, [] => some tree
  | file _, _ :: _ => none
  | directory entries, name :: rest => (entries.lookup name).bind (at? · rest)

/-- The tree with `new` at a location. Directories that are missing on the way are made; a file on
the way keeps everything as it is. -/
def put (new : FileTree) : Location → FileTree → FileTree
  | [], _ => new
  | _ :: _, file bytes => file bytes
  | name :: rest, directory entries =>
    directory (Assoc.insert name (put new rest ((entries.lookup name).getD empty)) entries)

@[simp] theorem at?_nil (tree : FileTree) : tree.at? [] = some tree := by
  cases tree <;> rfl

@[simp] theorem put_nil (new tree : FileTree) : put new [] tree = new := by
  cases tree <;> rfl

@[simp] theorem at?_file_cons (bytes : ByteArray) (name : String) (rest : Location) :
    (file bytes).at? (name :: rest) = none := rfl

@[simp] theorem at?_directory_cons (entries : List (String × FileTree)) (name : String)
    (rest : Location) :
    (directory entries).at? (name :: rest) = (entries.lookup name).bind (at? · rest) := rfl

@[simp] theorem at?_empty_cons (name : String) (rest : Location) :
    empty.at? (name :: rest) = none := rfl

theorem at?_append (tree : FileTree) (outer inner : Location) :
    tree.at? (outer ++ inner) = (tree.at? outer).bind (at? · inner) := by
  induction outer generalizing tree with
  | nil => simp
  | cons name rest ih =>
    cases tree with
    | file bytes => simp
    | directory entries =>
      cases h : entries.lookup name with
      | none => simp [h]
      | some child => simp [h, ih]

/-- What is put into an existing directory is found there. -/
theorem at?_put (new : FileTree) (outer : Location) (name : String) (tree : FileTree)
    (entries : List (String × FileTree)) (h : tree.at? outer = some (directory entries)) :
    (put new (outer ++ [name]) tree).at? (outer ++ [name]) = some new := by
  induction outer generalizing tree with
  | nil =>
    obtain rfl : tree = directory entries := by simpa using h
    simp [put]
  | cons first rest ih =>
    cases tree with
    | file bytes => simp at h
    | directory es =>
      cases hl : es.lookup first with
      | none => simp [hl] at h
      | some child =>
        have := ih child (by simpa [hl] using h)
        simp [put, hl, this]

/-- Nothing changes at a location that differs from the changed one in a name on its way. -/
theorem at?_put_of_ne (new : FileTree) (outer : Location) {a b : String} (h : b ≠ a)
    (inner other : Location) (tree : FileTree) :
    (put new (outer ++ a :: inner) tree).at? (outer ++ b :: other) =
      tree.at? (outer ++ b :: other) := by
  induction outer generalizing tree with
  | nil =>
    cases tree with
    | file bytes => rfl
    | directory entries => simp [put, Assoc.lookup_insert_of_ne h]
  | cons first rest ih =>
    cases tree with
    | file bytes => rfl
    | directory entries =>
      cases hl : entries.lookup first with
      | none =>
        simp only [List.cons_append, put, at?_directory_cons, Assoc.lookup_insert_self, hl,
          Option.getD_none, Option.bind_some, Option.bind_none, ih]
        cases rest <;> rfl
      | some child => simp [put, hl, ih]

mutual

/-- All files of a tree with their locations. -/
def files : FileTree → List (Location × ByteArray)
  | file bytes => [([], bytes)]
  | directory entries => filesIn entries

def filesIn : List (String × FileTree) → List (Location × ByteArray)
  | [] => []
  | (name, tree) :: rest =>
    (files tree).map (fun (location, bytes) => (name :: location, bytes)) ++ filesIn rest

end

/-- The files of the new tree that the old one lacks or holds with other bytes. -/
def changes (old new : FileTree) : List (Location × ByteArray) :=
  new.files.filter fun (location, bytes) =>
    match old.at? location with
    | some (file before) => before != bytes
    | _ => true

end FileTree
end CaseScript
