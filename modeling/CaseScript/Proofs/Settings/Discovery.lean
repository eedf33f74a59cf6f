import CaseScript.Proofs.FileTree.Changes
import CaseScript.Settings.Discovery
import Mathlib.Data.List.Induction

/-!
# The nearest settings file

A search for settings climbs from a directory until a directory has a settings file. It finds the
deepest one on its way, and nothing beside this way has any influence on what it finds.
-/

namespace CaseScript

namespace FileTree

variable {name : String} {tree tree' : FileTree} {start directory outer found : Location}

/-- Is a directory the deepest one on the way to a location that has an entry called `name`? -/
structure IsNearest (name : String) (tree : FileTree) (start directory : Location) : Prop where
  above : directory <+: start
  there : (tree.at? (directory ++ [name])).isSome = true
  deepest : ∀ other, other <+: start → (tree.at? (other ++ [name])).isSome = true →
    other <+: directory

theorem nearest?_cons (name : String) (tree : FileTree) (first : String) (rest : Location) :
    tree.nearest? name (first :: rest) =
      (((tree.at? [first]).bind (nearest? name · rest)).map (first :: ·)).or
        (tree.nearest? name []) := by
  rw [nearest?_nil, nearest?]
  cases (tree.at? [first]).bind (nearest? name · rest) <;> rfl

/-- One step of the climb: what a directory has itself comes first. -/
theorem nearest?_concat (name : String) (tree : FileTree) (outer : Location) (step : String) :
    tree.nearest? name (outer ++ [step]) =
      if (tree.at? (outer ++ [step] ++ [name])).isSome then some (outer ++ [step] ++ [name])
      else tree.nearest? name outer := by
  induction outer generalizing tree with
  | nil =>
    rw [List.nil_append, nearest?_cons, at?_append tree [step] [name]]
    cases tree.at? [step] with
    | none => rfl
    | some child =>
      rw [Option.bind_some, Option.bind_some, nearest?_nil]
      split <;> rfl
  | cons first rest ih =>
    have hat := at?_append tree [first] (rest ++ [step] ++ [name])
    rw [List.singleton_append] at hat
    rw [List.cons_append, nearest?_cons, nearest?_cons, List.cons_append, hat]
    cases tree.at? [first] with
    | none => rfl
    | some child =>
      rw [Option.bind_some, Option.bind_some, Option.bind_some, ih]
      split <;> rfl

theorem isNearest_nil :
    tree.IsNearest name [] directory ↔ directory = [] ∧ (tree.at? [name]).isSome = true := by
  constructor
  · intro h
    obtain rfl := List.prefix_nil.mp h.above
    exact ⟨rfl, h.there⟩
  · rintro ⟨rfl, h⟩
    exact ⟨List.prefix_rfl, h, fun other hother _ => hother⟩

theorem isNearest_of_here (h : (tree.at? (start ++ [name])).isSome = true) :
    tree.IsNearest name start directory ↔ directory = start := by
  constructor
  · intro hnearest
    exact hnearest.above.eq_of_length_le (hnearest.deepest start List.prefix_rfl h).length_le
  · rintro rfl
    exact ⟨List.prefix_rfl, h, fun other hother _ => hother⟩

theorem isNearest_concat_of_not_here {step : String}
    (h : ¬ (tree.at? (outer ++ [step] ++ [name])).isSome = true) :
    tree.IsNearest name (outer ++ [step]) directory ↔ tree.IsNearest name outer directory := by
  have habove : ∀ other, (tree.at? (other ++ [name])).isSome = true →
      (other <+: outer ++ [step] ↔ other <+: outer) := by
    intro other hother
    rw [List.prefix_concat_iff, or_iff_right]
    rintro rfl
    exact h hother
  constructor
  · rintro ⟨hway, hthere, hdeepest⟩
    exact ⟨(habove directory hthere).mp hway, hthere,
      fun other hother hsome => hdeepest other ((habove other hsome).mpr hother) hsome⟩
  · rintro ⟨hway, hthere, hdeepest⟩
    exact ⟨(habove directory hthere).mpr hway, hthere,
      fun other hother hsome => hdeepest other ((habove other hsome).mp hother) hsome⟩

/-- The search finds an entry of the nearest directory that has one. -/
theorem nearest?_eq_some_iff :
    tree.nearest? name start = some found ↔
      ∃ directory, found = directory ++ [name] ∧ tree.IsNearest name start directory := by
  induction start using List.reverseRecOn with
  | nil =>
    rw [nearest?_nil]
    simp only [isNearest_nil]
    split
    · rename_i h
      simp [h, eq_comm]
    · rename_i h
      simp [h]
  | append_singleton outer step ih =>
    rw [nearest?_concat]
    split
    · rename_i h
      simp [isNearest_of_here h, eq_comm]
    · rename_i h
      simp only [ih, isNearest_concat_of_not_here h]

/-- The search fails just if no directory on its way has the entry. -/
theorem nearest?_eq_none_iff :
    tree.nearest? name start = none ↔
      ∀ directory, directory <+: start → tree.at? (directory ++ [name]) = none := by
  induction start using List.reverseRecOn with
  | nil => simp [nearest?_nil]
  | append_singleton outer step ih =>
    rw [nearest?_concat]
    simp only [List.prefix_concat_iff, forall_eq_or_imp]
    split
    · rename_i h
      simp only [reduceCtorEq, false_iff, not_and]
      exact fun hnone => absurd hnone (Option.isSome_iff_ne_none.mp h)
    · rename_i h
      rw [ih, and_iff_right (Option.not_isSome_iff_eq_none.mp h)]

/-- Only the entries on the way are looked at. -/
theorem nearest?_congr
    (h : ∀ directory, directory <+: start →
      (tree'.at? (directory ++ [name])).isSome = (tree.at? (directory ++ [name])).isSome) :
    tree'.nearest? name start = tree.nearest? name start := by
  induction start using List.reverseRecOn with
  | nil => rw [nearest?_nil, nearest?_nil, ← List.nil_append [name], h [] List.prefix_rfl]
  | append_singleton outer step ih =>
    rw [nearest?_concat, nearest?_concat, h _ List.prefix_rfl]
    rw [ih fun directory hway => h directory (hway.trans (List.prefix_append outer [step]))]

end FileTree

namespace Settings

variable {w w' : Workspace} {path : String}

/-- A search starts in the directory of a file, and from any other location itself. -/
theorem startOf_eq (w : Workspace) (path : String) :
    startOf w path =
      if (w.tree.fileAt? (w.resolved path)).isSome then (w.resolved path).dropLast
      else w.resolved path := by
  cases hfile : w.tree.fileAt? (w.resolved path) with
  | none =>
    have hother : ∀ bytes, w.tree.at? (w.resolved path) ≠ some (.file bytes) := by
      intro bytes hfound
      rw [FileTree.fileAt?_eq_some.mpr hfound] at hfile
      cases hfile
    rw [Option.isSome_none, if_neg Bool.false_ne_true, startOf]
    split
    · exact absurd ‹_› (hother _)
    · rfl
  | some bytes =>
    have hfound := FileTree.fileAt?_eq_some.mp hfile
    rw [Workspace.resolved] at hfound
    simp [startOf, hfound, Workspace.resolved]

theorem find?_eq_some_iff {found : Location} :
    find? w path = some found ↔ ∃ directory, found = directory ++ [fileName] ∧
      w.tree.IsNearest fileName (startOf w path) directory :=
  FileTree.nearest?_eq_some_iff

theorem find?_eq_none_iff :
    find? w path = none ↔
      ∀ directory, directory <+: startOf w path → w.tree.at? (directory ++ [fileName]) = none :=
  FileTree.nearest?_eq_none_iff

theorem discover_of_find?_eq_none (h : find? w path = none) : discover w path = .ok {} := by
  rw [discover, h]

theorem discover_of_find?_eq_some {found : Location} (h : find? w path = some found) :
    discover w path = load w.tree found := by
  rw [discover, h]

theorem find?_congr (hstart : startOf w' path = startOf w path)
    (h : ∀ directory, directory <+: startOf w path →
      (w'.tree.at? (directory ++ [fileName])).isSome =
        (w.tree.at? (directory ++ [fileName])).isSome) :
    find? w' path = find? w path := by
  rw [find?, find?, hstart]
  exact FileTree.nearest?_congr h

theorem discover_congr (hstart : startOf w' path = startOf w path)
    (h : ∀ directory, directory <+: startOf w path →
      w'.tree.at? (directory ++ [fileName]) = w.tree.at? (directory ++ [fileName])) :
    discover w' path = discover w path := by
  have hfind := find?_congr hstart fun directory hway => congrArg _ (h directory hway)
  cases hfound : find? w path with
  | none => rw [discover_of_find?_eq_none hfound, discover_of_find?_eq_none (hfind.trans hfound)]
  | some found =>
    obtain ⟨directory, rfl, hnearest⟩ := find?_eq_some_iff.mp hfound
    rw [discover_of_find?_eq_some hfound, discover_of_find?_eq_some (hfind.trans hfound), load,
      load, h directory hnearest.above]

/-- Settings are searched for from the location that a path stands for, or from the directory of the
file there. Of the directories from there up to the root the deepest one that has a settings file
counts; if there is none the defaults hold. Nothing but these settings files has any influence. -/
theorem nearest_settings_found (w : Workspace) (path : String) :
    (∀ location, w.locate path = .ok location → location = w.resolved path) ∧
      (startOf w path =
        if (w.tree.fileAt? (w.resolved path)).isSome then (w.resolved path).dropLast
        else w.resolved path) ∧
      (∀ found, find? w path = some found ↔ ∃ directory, found = directory ++ [fileName] ∧
        w.tree.IsNearest fileName (startOf w path) directory) ∧
      (find? w path = none ↔
        ∀ directory, directory <+: startOf w path → w.tree.at? (directory ++ [fileName]) = none) ∧
      (∀ found, find? w path = some found → discover w path = load w.tree found) ∧
      (find? w path = none → discover w path = .ok {}) ∧
      ∀ w' : Workspace, startOf w' path = startOf w path →
        ((∀ directory, directory <+: startOf w path →
            (w'.tree.at? (directory ++ [fileName])).isSome =
              (w.tree.at? (directory ++ [fileName])).isSome) → find? w' path = find? w path) ∧
          ((∀ directory, directory <+: startOf w path →
            w'.tree.at? (directory ++ [fileName]) = w.tree.at? (directory ++ [fileName])) →
              discover w' path = discover w path) := by
  refine ⟨?_, startOf_eq w path, fun found => find?_eq_some_iff, find?_eq_none_iff,
    fun found => discover_of_find?_eq_some, discover_of_find?_eq_none, ?_⟩
  · exact fun location => Workspace.eq_resolved_of_locate
  · exact fun w' hstart => ⟨find?_congr hstart, discover_congr hstart⟩

/-- Settings files at the root and in two directories of `/work`, of which one is a directory. -/
def threeLevels : Workspace where
  tree :=
    .directory [(fileName, .file "[format]\nwidth = 0\n".toUTF8),
      ("work", .directory [("a", .directory [(fileName, .directory []), ("b", .directory [])]),
        ("side", .directory [(fileName, .file "".toUTF8)])])]
  directory := ["work"]

theorem nearest_settings_found_climbing :
    find? threeLevels "a/b/missing/../x.json" = some ["work", "a", fileName] ∧
      threeLevels.tree.IsNearest fileName ["work", "a", "b", "x.json"] ["work", "a"] ∧
      find? threeLevels "side/.." = some [fileName] ∧
      threeLevels.tree.at? ["work", fileName] = none := by
  have hmissing : find? threeLevels "a/b/missing/../x.json" = some ["work", "a", fileName] := by
    decide +kernel
  have hside : find? threeLevels "side/.." = some [fileName] := by decide +kernel
  obtain ⟨-, -, hfound, -⟩ := nearest_settings_found threeLevels "a/b/missing/../x.json"
  obtain ⟨directory, hdirectory, hnearest⟩ := (hfound _).mp hmissing
  obtain rfl : ["work", "a"] = directory := List.append_left_injective [fileName] hdirectory
  have hstart : startOf threeLevels "a/b/missing/../x.json" = ["work", "a", "b", "x.json"] := by
    decide +kernel
  rw [hstart] at hnearest
  exact ⟨hmissing, hnearest, hside, rfl⟩

end Settings
end CaseScript
