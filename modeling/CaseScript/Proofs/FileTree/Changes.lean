import CaseScript.Proofs.FileTree.Paths
import Mathlib.Logic.Function.Basic

/-!
# What an operation changes

The files of a tree, seen as a function from locations to bytes. Writing a file changes this
function at the location of the file alone, and making directories does not change it at all.
-/

namespace CaseScript

namespace FileTree

variable {tree leaf : FileTree} {outer location : Location} {name : String}

/-- The bytes of the file at a location, if a file stands there. -/
def fileAt? (tree : FileTree) (location : Location) : Option ByteArray :=
  match tree.at? location with
  | some (file bytes) => some bytes
  | _ => none

@[simp] theorem fileAt?_directory_cons (entries : List (String × FileTree)) (name : String)
    (rest : Location) :
    (directory entries).fileAt? (name :: rest) =
      (entries.lookup name).bind (fileAt? · rest) := by
  rw [fileAt?, at?_directory_cons]
  cases entries.lookup name <;> rfl

theorem fileAt?_eq_some {bytes : ByteArray} :
    tree.fileAt? location = some bytes ↔ tree.at? location = some (file bytes) := by
  unfold fileAt?
  split
  · rename_i found hfound
    simp [hfound]
  · rename_i hother
    simp only [reduceCtorEq, false_iff]
    exact hother bytes

theorem fileAt?_eq_none_of_at? (h : tree.at? location = none) : tree.fileAt? location = none := by
  rw [fileAt?, h]

theorem fileAt?_insert_self (entries : List (String × FileTree)) (name : String) (new : FileTree)
    (rest : Location) :
    (directory (Assoc.insert name new entries)).fileAt? (name :: rest) = new.fileAt? rest := by
  rw [fileAt?_directory_cons, Assoc.lookup_insert_self, Option.bind_some]

theorem fileAt?_insert_of_ne (entries : List (String × FileTree)) {name first : String}
    (h : first ≠ name) (new : FileTree) (rest : Location) :
    (directory (Assoc.insert name new entries)).fileAt? (first :: rest) =
      (directory entries).fileAt? (first :: rest) := by
  rw [fileAt?_directory_cons, fileAt?_directory_cons, Assoc.lookup_insert_of_ne h]

/-- Nothing can stand below what has no entries, or below what is no directory. -/
theorem fileAt?_below_leaf (hleaf : ∀ inner rest, leaf.at? (inner :: rest) = none)
    (entries : List (String × FileTree)) (hplace : ¬ (directory entries).HasDirectory [name])
    (rest : Location) (hrest : rest ≠ []) :
    leaf.fileAt? rest = (directory entries).fileAt? (name :: rest) := by
  obtain ⟨next, more, rfl⟩ := List.exists_cons_of_ne_nil hrest
  rw [fileAt?_eq_none_of_at? (hleaf next more), fileAt?_directory_cons]
  cases hchild : entries.lookup name with
  | none => rfl
  | some child =>
    cases child with
    | file bytes => rfl
    | directory inner => exact absurd ⟨inner, by simp [hchild]⟩ hplace

/-- What has no entries is put where no directory is: all files stay, but for the one in its
place. -/
theorem fileAt?_put (hleaf : ∀ inner rest, leaf.at? (inner :: rest) = none)
    (houter : tree.HasDirectory outer) (hplace : ¬ tree.HasDirectory (outer ++ [name])) :
    (put leaf (outer ++ [name]) tree).fileAt? =
      Function.update tree.fileAt? (outer ++ [name]) (leaf.fileAt? []) := by
  funext other
  rw [Function.update_apply]
  induction outer generalizing tree other with
  | nil =>
    obtain ⟨entries, hentries⟩ := houter
    obtain rfl : tree = directory entries := by simpa using hentries
    rw [List.nil_append] at hplace ⊢
    rw [put, put_nil]
    cases other with
    | nil => rfl
    | cons first rest =>
      by_cases hfirst : first = name
      · subst hfirst
        rw [fileAt?_insert_self]
        split
        · rename_i hrest
          rw [(List.cons.inj hrest).2]
        · rename_i hrest
          exact fileAt?_below_leaf hleaf entries hplace rest fun h => hrest (by rw [h])
      · rw [fileAt?_insert_of_ne entries hfirst, if_neg fun h => hfirst (List.cons.inj h).1]
  | cons step rest ih =>
    obtain ⟨below, hentries⟩ := houter
    cases tree with
    | file bytes => cases hentries
    | directory entries =>
      obtain ⟨child, hchild, hdirectory⟩ := Option.bind_eq_some_iff.mp hentries
      have hinner : ¬ child.HasDirectory (rest ++ [name]) := by
        rintro ⟨more, hmore⟩
        exact hplace ⟨more, by simp [hchild, hmore]⟩
      rw [List.cons_append, put, hchild, Option.getD_some]
      cases other with
      | nil => rfl
      | cons first others =>
        by_cases hfirst : first = step
        · subst hfirst
          rw [fileAt?_insert_self, ih ⟨below, hdirectory⟩ hinner, fileAt?_directory_cons, hchild]
          simp
        · rw [fileAt?_insert_of_ne entries hfirst, if_neg fun h => hfirst (List.cons.inj h).1]

end FileTree

namespace Workspace

variable {w w' w'' : Workspace} {path : String}

/-- The place of a new entry: it is in a directory and no directory itself. -/
theorem exists_place {location : Location} (h : w.locate path = .ok location)
    (hplace : ¬ w.tree.HasDirectory location) :
    ∃ outer name, location = outer ++ [name] ∧ w.tree.HasDirectory outer :=
  (hasDirectory_of_locate h).resolve_left hplace

/-- Has one workspace the same files as another, and the same working directory? -/
structure SameFiles (w w' : Workspace) : Prop where
  directory : w'.directory = w.directory
  files : w'.tree.fileAt? = w.tree.fileAt?

theorem SameFiles.refl (w : Workspace) : w.SameFiles w := ⟨rfl, rfl⟩

theorem SameFiles.trans (h : w.SameFiles w') (h' : w'.SameFiles w'') : w.SameFiles w'' :=
  ⟨h'.directory.trans h.directory, h'.files.trans h.files⟩

/-- Does one workspace differ from another just in the file at one location, which holds some
bytes? -/
structure Wrote (w : Workspace) (location : Location) (bytes : ByteArray) (w' : Workspace) :
    Prop where
  directory : w'.directory = w.directory
  files : w'.tree.fileAt? = Function.update w.tree.fileAt? location (some bytes)

theorem SameFiles.wrote {location : Location} {bytes : ByteArray} (h : w.SameFiles w')
    (h' : w'.Wrote location bytes w'') : w.Wrote location bytes w'' :=
  ⟨h'.directory.trans h.directory, by rw [h'.files, h.files]⟩

/-- Writing a file changes this file alone. -/
theorem wrote_writeFile {p : PathName} {bytes : ByteArray} (hp : p.IsNormal)
    (h : w.writeFile p.written bytes = .ok w') :
    w.Wrote (p.locationFrom w.directory) bytes w' := by
  obtain ⟨location, hlocation, h⟩ := except_bind_eq_ok.mp h
  obtain rfl := eq_of_locate_written hp hlocation
  split at h
  · cases h
  · rename_i hplace
    obtain rfl := Except.ok.inj h
    have hnone : ¬ w.tree.HasDirectory (p.locationFrom w.directory) :=
      fun ⟨entries, hentries⟩ => hplace entries hentries
    obtain ⟨outer, name, hlast, houter⟩ := exists_place hlocation hnone
    rw [hlast] at hnone ⊢
    exact ⟨rfl, FileTree.fileAt?_put (FileTree.at?_file_cons bytes) houter hnone⟩

theorem sameFiles_makeDirectory (h : w.makeDirectory path = .ok w') : w.SameFiles w' := by
  obtain ⟨location, hlocation, h⟩ := except_bind_eq_ok.mp h
  split at h
  · cases h
  · rename_i hplace
    obtain rfl := Except.ok.inj h
    have hnone : ¬ w.tree.HasDirectory location := by
      rintro ⟨entries, hentries⟩
      rw [hplace] at hentries
      cases hentries
    obtain ⟨outer, name, rfl, houter⟩ := exists_place hlocation hnone
    refine ⟨rfl, ?_⟩
    rw [FileTree.fileAt?_put FileTree.at?_empty_cons houter hnone]
    apply Function.update_eq_self_iff.mpr
    exact (FileTree.fileAt?_eq_none_of_at? hplace).symm

theorem sameFiles_orDirectory {result : Except FileFault Workspace}
    (hresult : ∀ made, result = .ok made → w.SameFiles made)
    (h : w.orDirectory path result = .ok w') : w.SameFiles w' := by
  unfold orDirectory at h
  split at h
  · obtain rfl := Except.ok.inj h
    exact hresult _ rfl
  · cases h
  · split at h
    · obtain rfl := Except.ok.inj h
      exact SameFiles.refl w
    · cases h

theorem sameFiles_makeDirectoriesUp {absolute : Bool} {names : List String}
    (h : makeDirectoriesUp absolute w names = .ok w') : w.SameFiles w' := by
  induction names generalizing w' with
  | nil => exact sameFiles_orDirectory (fun _ => sameFiles_makeDirectory) h
  | cons name outer ih =>
    rw [makeDirectoriesUp] at h
    split at h
    · obtain ⟨between, hbetween, h⟩ := except_bind_eq_ok.mp h
      exact (ih hbetween).trans (sameFiles_orDirectory (fun _ => sameFiles_makeDirectory) h)
    · exact sameFiles_orDirectory (fun _ => sameFiles_makeDirectory) h

/-- Making directories leaves all files alone. -/
theorem sameFiles_makeDirectories {p : PathName} (h : w.makeDirectories p = .ok w') :
    w.SameFiles w' := sameFiles_makeDirectoriesUp h

/-- Where nothing is found under the path of a new entry, nothing stands there either, unless the
path climbs out of a directory that does not exist. -/
theorem at?_child_eq_none {p : PathName} {name : String} (hp : p.IsNormal)
    (hname : name ≠ "" ∧ name ≠ "." ∧ '/' ∉ name.toList) (hup : name ≠ "..")
    (hmissing : w.exists? (p.child name).written = false)
    (hpath : ".." ∉ p.names ∨ w.isDirectory p.written = true) :
    w.tree.at? ((p.child name).locationFrom w.directory) = none := by
  by_contra hthere
  obtain ⟨entry, hentry⟩ := Option.ne_none_iff_exists'.mp hthere
  have hlocate : w.locate (p.child name).written =
      .ok ((p.child name).locationFrom w.directory) := by
    rcases hpath with hclimb | hdirectory
    · have hnames : ".." ∉ (p.child name).names := by
        rw [PathName.child, List.mem_append, List.mem_singleton, not_or]
        exact ⟨hclimb, hup.symm⟩
      apply locate_of_isSome_at? (hp.child hname) (List.concat_ne_nil name p.names) hnames
      rw [hentry]
      rfl
    · exact locate_child hp hname hdirectory
  have hexists := exists?_iff.mpr ⟨entry, entry_eq_ok.mpr ⟨_, hlocate, hentry⟩⟩
  rw [hmissing] at hexists
  cases hexists

end Workspace
end CaseScript
