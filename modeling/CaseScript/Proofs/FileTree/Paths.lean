import CaseScript.FileTree.Workspace
import CaseScript.Proofs.Except
import Mathlib.Data.String.Basic

/-!
# Paths through a file tree

A written path is followed step by step, and every step has to start from a directory. Where that
succeeds it ends at the location that the names of the path lead to by themselves, and the normal
form of the path leads there too.
-/

namespace CaseScript

/-! ## Locations -/

namespace FileTree

variable {tree : FileTree} {location outer inner : Location}

/-- Is there a directory at a location? -/
def HasDirectory (tree : FileTree) (location : Location) : Prop :=
  ∃ entries, tree.at? location = some (directory entries)

/-- What stands below a location stands in a directory. -/
theorem hasDirectory_of_isSome_at? (hinner : inner ≠ [])
    (h : (tree.at? (outer ++ inner)).isSome = true) : tree.HasDirectory outer := by
  obtain ⟨name, rest, rfl⟩ := List.exists_cons_of_ne_nil hinner
  rw [at?_append] at h
  cases houter : tree.at? outer with
  | none => simp [houter] at h
  | some entry =>
    cases entry with
    | file bytes => simp [houter] at h
    | directory entries => exact ⟨entries, houter⟩

theorem HasDirectory.dropLast (h : tree.HasDirectory location) :
    tree.HasDirectory location.dropLast := by
  obtain ⟨entries, hentries⟩ := h
  rcases List.eq_nil_or_concat location with rfl | ⟨outer, name, rfl⟩
  · exact ⟨entries, hentries⟩
  · rw [List.concat_eq_append] at hentries ⊢
    rw [List.dropLast_concat]
    exact hasDirectory_of_isSome_at? (List.cons_ne_nil name []) (by rw [hentries]; rfl)

end FileTree

/-- The location that one step of a path leads to from a directory. -/
def Location.enter (location : Location) (step : String) : Location :=
  if step = "" ∨ step = "." then location
  else if step = ".." then location.dropLast
  else location ++ [step]

theorem Location.enter_of_plain (location : Location) {step : String}
    (h : step ≠ "" ∧ step ≠ "." ∧ step ≠ "..") : location.enter step = location ++ [step] := by
  rw [enter, if_neg (not_or.mpr ⟨h.1, h.2.1⟩), if_neg h.2.2]

theorem foldl_enter_of_plain {names : List String}
    (h : ∀ name ∈ names, name ≠ "" ∧ name ≠ "." ∧ name ≠ "..") (location : Location) :
    names.foldl Location.enter location = location ++ names := by
  induction names generalizing location with
  | nil => rw [List.foldl_nil, List.append_nil]
  | cons name rest ih =>
    rw [List.forall_mem_cons] at h
    rw [List.foldl_cons, Location.enter_of_plain location h.1, ih h.2, ← List.append_cons]

/-! ## Steps -/

namespace Workspace

variable {w : Workspace} {location found : Location} {path : String}

theorem follow_cons_eq_ok {step : String} {rest : List String} :
    w.follow location (step :: rest) = .ok found ↔
      w.tree.HasDirectory location ∧ w.follow (location.enter step) rest = .ok found := by
  rw [follow]
  unfold FileTree.HasDirectory Location.enter
  cases w.tree.at? location with
  | none => simp
  | some entry =>
    cases entry with
    | file bytes => simp
    | directory entries =>
      simp only [Option.some.injEq, FileTree.directory.injEq, exists_eq', true_and]
      split
      · rfl
      · split <;> rfl

theorem follow_append_eq_ok {first second : List String} :
    w.follow location (first ++ second) = .ok found ↔
      ∃ middle, w.follow location first = .ok middle ∧ w.follow middle second = .ok found := by
  induction first generalizing location with
  | nil => simp [follow]
  | cons step rest ih =>
    simp only [List.cons_append, follow_cons_eq_ok, ih]
    constructor
    · rintro ⟨hdirectory, middle, hfirst, hsecond⟩
      exact ⟨middle, ⟨hdirectory, hfirst⟩, hsecond⟩
    · rintro ⟨middle, ⟨hdirectory, hfirst⟩, hsecond⟩
      exact ⟨hdirectory, middle, hfirst, hsecond⟩

/-- Where a path leads can be told without the tree. -/
theorem eq_of_follow {steps : List String} (h : w.follow location steps = .ok found) :
    found = steps.foldl Location.enter location := by
  induction steps generalizing location with
  | nil => exact (Except.ok.inj h).symm
  | cons step rest ih => exact ih (follow_cons_eq_ok.mp h).2

/-- Steps that lead nowhere may be left out. -/
theorem follow_filter {steps : List String} (h : w.follow location steps = .ok found) :
    w.follow location (steps.filter fun step => step ≠ "" && step ≠ ".") = .ok found := by
  induction steps generalizing location with
  | nil => exact h
  | cons step rest ih =>
    obtain ⟨hdirectory, hrest⟩ := follow_cons_eq_ok.mp h
    by_cases hstep : step = "" ∨ step = "."
    · rw [List.filter_cons_of_neg (by rcases hstep with rfl | rfl <;> decide)]
      rw [Location.enter, if_pos hstep] at hrest
      exact ih hrest
    · rw [List.filter_cons_of_pos (by simpa using hstep)]
      exact follow_cons_eq_ok.mpr ⟨hdirectory, ih hrest⟩

/-- Names that do not climb lead to whatever stands below their start. -/
theorem follow_of_isSome_at? {names : List String}
    (hplain : ∀ name ∈ names, name ≠ "" ∧ name ≠ "." ∧ name ≠ "..")
    (h : (w.tree.at? (location ++ names)).isSome = true) :
    w.follow location names = .ok (location ++ names) := by
  induction names generalizing location with
  | nil => rw [List.append_nil, follow]
  | cons name rest ih =>
    rw [List.forall_mem_cons] at hplain
    have hdirectory := FileTree.hasDirectory_of_isSome_at? (List.cons_ne_nil name rest) h
    rw [List.append_cons] at h ⊢
    rw [follow_cons_eq_ok, Location.enter_of_plain _ hplain.1]
    exact ⟨hdirectory, ih hplain.2 h⟩

/-- Only the last name of a path may be missing. -/
theorem hasDirectory_of_follow {step : String} {rest : List String}
    (h : w.follow location (step :: rest) = .ok found) :
    w.tree.HasDirectory found ∨
      ∃ outer name, found = outer ++ [name] ∧ w.tree.HasDirectory outer := by
  induction rest generalizing location step with
  | nil =>
    obtain ⟨hdirectory, hfound⟩ := follow_cons_eq_ok.mp h
    obtain rfl := Except.ok.inj hfound
    unfold Location.enter
    split
    · exact .inl hdirectory
    · split
      · exact .inl hdirectory.dropLast
      · exact .inr ⟨location, step, rfl, hdirectory⟩
  | cons next rest ih => exact ih (follow_cons_eq_ok.mp h).2

end Workspace

/-! ## Written paths -/

theorem pathSteps_eq (path : String) :
    pathSteps path = (path.toList.splitOn '/').map String.ofList := by
  rw [pathSteps, String.splitToList_of_valid, List.splitOn_eq_splitOnP]

theorem pathSteps_ne_nil (path : String) : pathSteps path ≠ [] := by
  rw [pathSteps_eq]
  exact List.map_eq_nil_iff.not.mpr (List.splitOn_ne_nil '/' _)

theorem slash_notMem_of_mem_pathSteps {path step : String} (h : step ∈ pathSteps path) :
    '/' ∉ step.toList := by
  have hparts : ∀ s : List Char, ∀ part ∈ s.splitOn '/', '/' ∉ part := by
    intro s
    induction s with
    | nil => simp
    | cons c rest ih =>
      intro part hpart
      rw [List.splitOn_cons_eq_if_modifyHead] at hpart
      split at hpart
      · rcases List.mem_cons.mp hpart with rfl | hpart
        · exact List.not_mem_nil
        · exact ih part hpart
      · rename_i hc
        obtain ⟨first, others, hsplit⟩ := List.exists_cons_of_ne_nil (List.splitOn_ne_nil '/' rest)
        rw [hsplit] at ih hpart
        rw [List.forall_mem_cons] at ih
        rcases List.mem_cons.mp hpart with rfl | hpart
        · rw [List.mem_cons, not_or]
          exact ⟨fun he => hc (beq_iff_eq.mpr he.symm), ih.1⟩
        · exact ih.2 part hpart
  rw [pathSteps_eq] at h
  obtain ⟨part, hpart, rfl⟩ := List.mem_map.mp h
  rw [String.toList_ofList]
  exact hparts _ part hpart

theorem pathSteps_intercalate {steps : List String} (hne : steps ≠ [])
    (h : ∀ step ∈ steps, '/' ∉ step.toList) : pathSteps ("/".intercalate steps) = steps := by
  have hparts : ∀ part ∈ steps.map String.toList, '/' ∉ part := List.forall_mem_map.mpr h
  have hslash : "/".toList = ['/'] := rfl
  rw [pathSteps_eq, String.toList_intercalate, hslash,
    List.splitOn_intercalate '/' hparts (List.map_eq_nil_iff.not.mpr hne), List.map_map]
  exact List.map_id'' (fun step => String.ofList_toList) steps

namespace PathName

/-- Has a path name only names that lead somewhere, each of them a single step? -/
def IsNormal (p : PathName) : Prop :=
  ∀ name ∈ p.names, name ≠ "" ∧ name ≠ "." ∧ '/' ∉ name.toList

variable {p : PathName} {path : String}

theorem isNormal_ofString (path : String) : (ofString path).IsNormal := by
  intro name hname
  obtain ⟨hmem, hname⟩ := List.mem_filter.mp hname
  have hne : name ≠ "" ∧ name ≠ "." := by simpa using hname
  exact ⟨hne.1, hne.2, slash_notMem_of_mem_pathSteps hmem⟩

theorem IsNormal.child (h : p.IsNormal) {name : String}
    (hname : name ≠ "" ∧ name ≠ "." ∧ '/' ∉ name.toList) : (p.child name).IsNormal := by
  unfold IsNormal PathName.child
  rw [List.forall_mem_append, List.forall_mem_singleton]
  exact ⟨h, hname⟩

/-- The steps that the written form of a path has. -/
def steps (p : PathName) : List String :=
  if p.absolute then "" :: (if p.names = [] then [""] else p.names)
  else if p.names = [] then ["."] else p.names

theorem written_eq (p : PathName) : p.written = "/".intercalate p.steps := by
  rcases p with ⟨_ | _, _ | ⟨name, rest⟩⟩
  · rfl
  · rfl
  · rfl
  · apply String.toList_inj.mp
    simp [written, steps, String.toList_intercalate]

theorem IsNormal.pathSteps_written (h : p.IsNormal) : pathSteps p.written = p.steps := by
  have hnames : ∀ name ∈ p.names, '/' ∉ name.toList := fun name hname => (h name hname).2.2
  rw [written_eq]
  apply pathSteps_intercalate
  · unfold steps
    split
    · exact List.cons_ne_nil _ _
    · split
      · exact List.cons_ne_nil _ _
      · assumption
  · unfold steps
    split
    · rw [List.forall_mem_cons]
      refine ⟨by decide, ?_⟩
      split
      · simp
      · exact hnames
    · split
      · simp
      · exact hnames

theorem IsNormal.exists_written (h : p.IsNormal) :
    ∃ c rest, p.written.toList = c :: rest ∧ (c == '/') = p.absolute := by
  unfold IsNormal at h
  rcases p with ⟨_ | _, _ | ⟨name, rest⟩⟩
  · exact ⟨'.', [], rfl, rfl⟩
  · obtain ⟨hne, -, hslash⟩ := h name List.mem_cons_self
    obtain ⟨c, others, hname⟩ := List.exists_cons_of_ne_nil (String.toList_eq_nil_iff.not.mpr hne)
    have hc : c ≠ '/' := by
      rintro rfl
      exact hslash (by rw [hname]; exact List.mem_cons_self)
    cases rest with
    | nil => exact ⟨c, others, by simpa [written_eq, steps] using hname, beq_false_of_ne hc⟩
    | cons next more =>
      refine ⟨c, others ++ ("/" ++ "/".intercalate (next :: more)).toList, ?_, beq_false_of_ne hc⟩
      simp [written_eq, steps, String.toList_intercalate, hname]
  · exact ⟨'/', [], rfl, rfl⟩
  · exact ⟨'/', _, by rw [written, if_pos rfl, String.toList_append]; rfl, rfl⟩

theorem locationFrom_eq (h : p.IsNormal) (directory : Location) :
    p.locationFrom directory =
      p.names.foldl Location.enter (if p.absolute then [] else directory) := by
  apply List.foldl_ext
  intro location name hname
  obtain ⟨hempty, hdot, -⟩ := h name hname
  rw [Location.enter, if_neg (not_or.mpr ⟨hempty, hdot⟩)]

end PathName

namespace Workspace

variable {w : Workspace} {found : Location} {path : String} {p : PathName}

/-- The location that a path starts from. -/
def origin (w : Workspace) (absolute : Bool) : Location := if absolute then [] else w.directory

theorem locate_eq (hne : path ≠ "") :
    w.locate path = w.follow (w.origin (PathName.ofString path).absolute) (pathSteps path) :=
  if_neg hne

theorem follow_steps_eq_ok {location : Location} :
    w.follow location p.steps = .ok found ↔
      w.tree.HasDirectory location ∧ w.follow location p.names = .ok found := by
  have hempty : location.enter "" = location := rfl
  have hdot : location.enter "." = location := rfl
  rcases p with ⟨_ | _, _ | ⟨name, rest⟩⟩
  · simp [PathName.steps, follow_cons_eq_ok, hdot]
  · simp [PathName.steps, follow_cons_eq_ok]
  · simp [PathName.steps, follow_cons_eq_ok, hempty]
  · simp [PathName.steps, follow_cons_eq_ok, hempty]

/-- A path in normal form leads where its names lead. -/
theorem locate_written_eq_ok (h : p.IsNormal) :
    w.locate p.written = .ok found ↔
      w.tree.HasDirectory (w.origin p.absolute) ∧
        w.follow (w.origin p.absolute) p.names = .ok found := by
  obtain ⟨c, rest, hwritten, hc⟩ := h.exists_written
  have hne : p.written ≠ "" := by
    intro hempty
    rw [hempty] at hwritten
    cases hwritten
  have habsolute : (PathName.ofString p.written).absolute = p.absolute := by
    rw [← hc, PathName.ofString, hwritten]
    rfl
  rw [locate_eq hne, habsolute, h.pathSteps_written, follow_steps_eq_ok]

/-- The normal form of a path leads where the path leads. -/
theorem locate_written_ofString (h : w.locate path = .ok found) :
    w.locate (PathName.ofString path).written = .ok found := by
  have hne : path ≠ "" := by
    rintro rfl
    cases h
  rw [locate_eq hne] at h
  rw [locate_written_eq_ok (PathName.isNormal_ofString path)]
  refine ⟨?_, follow_filter h⟩
  obtain ⟨step, rest, hsteps⟩ := List.exists_cons_of_ne_nil (pathSteps_ne_nil path)
  rw [hsteps] at h
  exact (follow_cons_eq_ok.mp h).1

/-- Where a path in normal form leads can be told without the tree. -/
theorem eq_of_locate_written (hp : p.IsNormal) (h : w.locate p.written = .ok found) :
    found = p.locationFrom w.directory := by
  rw [PathName.locationFrom_eq hp]
  exact eq_of_follow ((locate_written_eq_ok hp).mp h).2

/-- The location that a path stands for, whether or not anything is there. -/
def resolved (w : Workspace) (path : String) : Location :=
  (PathName.ofString path).locationFrom w.directory

theorem eq_resolved_of_locate (h : w.locate path = .ok found) : found = w.resolved path :=
  eq_of_locate_written (PathName.isNormal_ofString path) (locate_written_ofString h)

/-- Only the last name on the way to a location may be missing. -/
theorem hasDirectory_of_locate (h : w.locate path = .ok found) :
    w.tree.HasDirectory found ∨
      ∃ outer name, found = outer ++ [name] ∧ w.tree.HasDirectory outer := by
  have hne : path ≠ "" := by
    rintro rfl
    cases h
  obtain ⟨step, rest, hsteps⟩ := List.exists_cons_of_ne_nil (pathSteps_ne_nil path)
  rw [locate_eq hne, hsteps] at h
  exact hasDirectory_of_follow h

/-! ## Entries -/

theorem entry_eq_ok {entry : FileTree} :
    w.entry path = .ok entry ↔
      ∃ location, w.locate path = .ok location ∧ w.tree.at? location = some entry := by
  rw [Workspace.entry, except_bind_eq_ok]
  constructor
  · rintro ⟨location, hlocation, h⟩
    refine ⟨location, hlocation, ?_⟩
    split at h
    · rename_i hentry
      rw [hentry, Except.ok.inj h]
    · cases h
  · rintro ⟨location, hlocation, hentry⟩
    exact ⟨location, hlocation, by rw [hentry]⟩

theorem exists?_iff : w.exists? path = true ↔ ∃ entry, w.entry path = .ok entry := by
  unfold exists?
  cases w.entry path <;> simp

theorem isFile_iff : w.isFile path = true ↔ ∃ bytes, w.entry path = .ok (.file bytes) := by
  unfold isFile
  cases w.entry path with
  | error fault => simp
  | ok entry => cases entry <;> simp [FileTree.isFile]

theorem isDirectory_iff :
    w.isDirectory path = true ↔ ∃ entries, w.entry path = .ok (.directory entries) := by
  unfold isDirectory
  cases w.entry path with
  | error fault => simp
  | ok entry => cases entry <;> simp [FileTree.isDirectory]

theorem readFile_eq_ok {bytes : ByteArray} :
    w.readFile path = .ok bytes ↔ w.entry path = .ok (.file bytes) := by
  rw [readFile, except_bind_eq_ok]
  constructor
  · rintro ⟨entry, hentry, h⟩
    cases entry with
    | file others => rw [hentry, Except.ok.inj h]
    | directory entries => cases h
  · intro h
    exact ⟨_, h, rfl⟩

/-- What a path names is also named by its normal form. -/
theorem entry_written_ofString {entry : FileTree} (h : w.entry path = .ok entry) :
    w.entry (PathName.ofString path).written = .ok entry := by
  obtain ⟨location, hlocation, hentry⟩ := entry_eq_ok.mp h
  exact entry_eq_ok.mpr ⟨location, locate_written_ofString hlocation, hentry⟩

/-- A path that does not climb leads to whatever stands at its location. -/
theorem locate_of_isSome_at? (hp : p.IsNormal) (hne : p.names ≠ []) (hup : ".." ∉ p.names)
    (h : (w.tree.at? (p.locationFrom w.directory)).isSome = true) :
    w.locate p.written = .ok (p.locationFrom w.directory) := by
  have hplain : ∀ name ∈ p.names, name ≠ "" ∧ name ≠ "." ∧ name ≠ ".." := by
    intro name hname
    exact ⟨(hp name hname).1, (hp name hname).2.1, fun he => hup (he ▸ hname)⟩
  rw [PathName.locationFrom_eq hp, foldl_enter_of_plain hplain] at h ⊢
  exact (locate_written_eq_ok hp).mpr
    ⟨FileTree.hasDirectory_of_isSome_at? hne h, follow_of_isSome_at? hplain h⟩

/-- A path leads into a directory that exists. -/
theorem locate_child {name : String} (hp : p.IsNormal)
    (hname : name ≠ "" ∧ name ≠ "." ∧ '/' ∉ name.toList) (h : w.isDirectory p.written = true) :
    w.locate (p.child name).written = .ok ((p.child name).locationFrom w.directory) := by
  obtain ⟨entries, hentry⟩ := isDirectory_iff.mp h
  obtain ⟨location, hlocation, hentries⟩ := entry_eq_ok.mp hentry
  obtain ⟨horigin, hfollow⟩ := (locate_written_eq_ok hp).mp hlocation
  have hchild : w.follow (w.origin p.absolute) (p.names ++ [name]) =
      .ok (location.enter name) := by
    rw [follow_append_eq_ok]
    exact ⟨location, hfollow, follow_cons_eq_ok.mpr ⟨⟨entries, hentries⟩, rfl⟩⟩
  rw [PathName.locationFrom_eq (hp.child hname), locate_written_eq_ok (hp.child hname)]
  exact ⟨horigin, hchild.trans (by rw [eq_of_follow hchild]; rfl)⟩

end Workspace
end CaseScript
