import CaseScript.FileTree.Workspace
import CaseScript.Settings.OfToml

/-!
# Discovery of settings

The settings for a path stand in the nearest settings file: the one in the directory of the path or,
where that has none, in the closest directory above it. Without any such file the defaults hold.
-/

namespace CaseScript

/-- The location of the entry called `name` in the deepest directory that has one on the way to a
location. -/
def FileTree.nearest? (name : String) : FileTree → Location → Option Location
  | tree, [] => if (tree.at? [name]).isSome then some [name] else none
  | tree, step :: rest =>
    match (tree.at? [step]).bind (nearest? name · rest) with
    | some found => some (step :: found)
    | none => if (tree.at? [name]).isSome then some [name] else none

namespace FileTree

theorem nearest?_nil (name : String) (tree : FileTree) :
    tree.nearest? name [] = if (tree.at? [name]).isSome then some [name] else none := by
  cases tree <;> rfl

/-- What is found is there. -/
theorem at?_nearest? {name : String} {tree : FileTree} {location found : Location}
    (h : tree.nearest? name location = some found) : (tree.at? found).isSome := by
  induction location generalizing tree found with
  | nil =>
    rw [nearest?_nil] at h
    split at h
    · simp_all
    · simp at h
  | cons step rest ih =>
    unfold nearest? at h
    split at h
    · rename_i inner heq
      obtain ⟨child, hc, hi⟩ := Option.bind_eq_some_iff.1 heq
      obtain rfl := Option.some.inj h
      have := at?_append tree [step] inner
      rw [List.singleton_append] at this
      simp [this, hc, ih hi]
    · split at h
      · simp_all
      · simp at h

end FileTree

namespace Settings

/-- The directory that a search for settings starts from: the directory of a file, or any other
location itself. The location does not have to exist. -/
def startOf (w : Workspace) (path : String) : Location :=
  let location := (PathName.ofString path).locationFrom w.directory
  match w.tree.at? location with
  | some (.file _) => location.dropLast
  | _ => location

/-- The location of the settings file for a path. -/
def find? (w : Workspace) (path : String) : Option Location :=
  w.tree.nearest? fileName (startOf w path)

/-- Why the settings at a location cannot be had. -/
inductive LoadFault where
  | file (fault : FileFault)
  | content (fault : Fault)

/-- The settings at a location. -/
def load (tree : FileTree) (location : Location) : Except LoadFault Settings :=
  match tree.at? location with
  | none => .error (.file .notFound)
  | some (.directory _) => .error (.file .isADirectory)
  | some (.file bytes) => (ofBytes bytes).mapError .content

/-- The settings for a path. -/
def discover (w : Workspace) (path : String) : Except LoadFault Settings :=
  match find? w path with
  | none => .ok {}
  | some location => load w.tree location

end Settings
end CaseScript
