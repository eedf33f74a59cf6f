import CaseScript.Proofs.Command.Loading
import CaseScript.Proofs.Expr.Outline

/-!
# What a view prints

A view of a source file prints the outline of its tree and nothing else. What is printed tells which
tree it was.
-/

namespace CaseScript

open Text (IsControlFree)

namespace Command

open Command.Action

theorem printed_injective {lines lines' : List String} (hlines : ∀ line ∈ lines, IsControlFree line)
    (hlines' : ∀ line ∈ lines', IsControlFree line) (h : printed lines = printed lines') :
    lines = lines' := by
  induction lines generalizing lines' with
  | nil =>
    cases lines' with
    | nil => rfl
    | cons line' rest' =>
      have hlist := congrArg String.toList h
      rw [toList_printed_cons] at hlist
      exact absurd hlist.symm (List.append_ne_nil_of_right_ne_nil _ (List.cons_ne_nil _ _))
  | cons line rest ih =>
    cases lines' with
    | nil =>
      have hlist := congrArg String.toList h
      rw [toList_printed_cons] at hlist
      exact absurd hlist (List.append_ne_nil_of_right_ne_nil _ (List.cons_ne_nil _ _))
    | cons line' rest' =>
      rw [List.forall_mem_cons] at hlines hlines'
      have hlist := congrArg String.toList h
      rw [toList_printed_cons, toList_printed_cons] at hlist
      have hinside : ∀ {line : String}, IsControlFree line → ∀ c ∈ line.toList, c ≠ '\n' := by
        rintro line hcontrol _ hc rfl
        exact hcontrol.notMem (by decide) hc
      have hend : ∀ rest : List Char, ∀ c ∈ ('\n' :: rest).head?, ¬ c ≠ '\n' := by
        rintro rest _ ⟨⟩
        exact fun h => h rfl
      obtain ⟨hline, hrest⟩ := append_inj_of_boundary (· ≠ '\n') (hinside hlines.1)
        (hinside hlines'.1) (hend _) (hend _) hlist
      rw [String.toList_inj.mp hline,
        ih hlines.2 hlines'.2 (String.toList_inj.mp (List.cons.inj hrest).2)]

/-! ## Runs -/

theorem shown_of_isControlFree {line : String} (h : IsControlFree line) (terminal : Terminal) :
    terminal.shown line = line := by
  unfold Terminal.shown
  split
  · rfl
  · exact Text.plain_eq_self (h.notMem (by decide))

theorem run_forM_say {lines : List String} (hlines : ∀ line ∈ lines, IsControlFree line)
    (terminal : Terminal) (session : Session) :
    (lines.forM say terminal).run session =
      (.ok (), { session with out := session.out ++ printed lines }) := by
  induction lines generalizing session with
  | nil =>
    have hnothing : printed [] = "" := rfl
    rw [hnothing, String.append_empty]
    rfl
  | cons line rest ih =>
    rw [List.forall_mem_cons] at hlines
    have hline := run_say line terminal session
    rw [shown_of_isControlFree hlines.1] at hline
    have hrun : ((line :: rest).forM say terminal).run session =
        (rest.forM say terminal).run { session with out := session.out ++ line ++ "\n" } :=
      run_bind_of_ok hline
    rw [hrun, ih hlines.2]
    simp only [printed, List.map_cons, String.join_cons, String.append_assoc]

/-- Does an invocation print the outline of a tree that is in a file of the workspace? -/
structure Views (args : List String) (w : Workspace) (e : Expr) : Prop where
  exists_file : ∃ verbose file settings,
    Invocation.ofArgs? args = some (.run verbose (.view file)) ∧
      (Request.view file).fits w = true ∧ Loads w file e settings

theorem run_view {w : Workspace} {file : String} {e : Expr} {settings : Settings}
    (h : Loads w file e settings) (terminal : Terminal) :
    ∃ err, (view file terminal).run { workspace := w } =
      (.ok (), { workspace := w, out := printed (e.outline.lines 0), err }) := by
  have hreads : Reads true (load file) fun w => loaded w file := reads_load file
  obtain ⟨out, err, hload, hquiet, -⟩ := hreads terminal { workspace := w }
  obtain rfl := hquiet rfl
  dsimp only at hload
  rw [loaded_eq_ok.mpr h] at hload
  have hview : (view file terminal).run { workspace := w } =
      ((e.outline.lines 0).forM say terminal).run { workspace := w, err := "" ++ err } :=
    run_bind_of_ok hload
  rw [hview, run_forM_say (e.controlFree_of_mem_lines 0), String.empty_append]
  exact ⟨_, rfl⟩

theorem outcome_of_views {args : List String} {w : Workspace} {e : Expr} (h : Views args w e)
    (color : Bool) :
    (run color args w).failure? = none ∧
      (run color args w).session.out = printed (e.outline.lines 0) := by
  obtain ⟨verbose, file, settings, hargs, hfits, hloads⟩ := h.exists_file
  obtain ⟨err, hview⟩ := run_view hloads ⟨color, verbose⟩
  have houtcome := (run_eq hargs hfits).trans (outcome_eq hview)
  rw [houtcome]
  exact ⟨rfl, rfl⟩

/-- A printed outline determines its tree, be it that of any tree or that which the view of a file
prints, with or without colours. -/
theorem view_faithful :
    (∀ e e' : Expr, printed (e.outline.lines 0) = printed (e'.outline.lines 0) → e = e') ∧
      ∀ (args args' : List String) (w w' : Workspace) (e e' : Expr) (color color' : Bool),
        Views args w e → Views args' w' e' →
          (run color args w).failure? = none ∧
            (run color args w).session.out = printed (e.outline.lines 0) ∧
            ((run color args w).session.out = (run color' args' w').session.out → e = e') := by
  have hprinted : ∀ e e' : Expr,
      printed (e.outline.lines 0) = printed (e'.outline.lines 0) → e = e' := by
    intro e e' h
    exact Expr.eq_of_lines_eq
      (printed_injective (e.controlFree_of_mem_lines 0) (e'.controlFree_of_mem_lines 0) h)
  refine ⟨hprinted, fun args args' w w' e e' color color' h h' => ?_⟩
  obtain ⟨hend, hout⟩ := outcome_of_views h color
  refine ⟨hend, hout, fun hsame => hprinted e e' ?_⟩
  rw [← hout, hsame, (outcome_of_views h' color').2]

theorem ofFile?_toUTF8 (s : String) :
    Text.ofFile? s.toUTF8 = some (String.ofList (Text.withLineFeeds s.toList)) := by
  have hutf8 : String.fromUTF8? s.toUTF8 = some s := by
    simp [String.fromUTF8?, String.fromUTF8, s.isValidUTF8]
  rw [Text.ofFile?, hutf8, Option.map_some]

/-- The outline of the tree that characters write. -/
def outlineOf (chars : List Char) : Option (List String) := do
  let e ← (Expr.ofSource (String.ofList (Text.withLineFeeds chars))).toOption
  return e.outline.lines 0

theorem exists_views {args : List String} {w : Workspace} {verbose : Bool} {file : String}
    {location : Location} {chars : List Char} {lines : List String}
    (hargs : Invocation.ofArgs? args = some (.run verbose (.view file)))
    (hfits : (Request.view file).fits w = true) (hfind : Settings.find? w file = none)
    (hlocate : (w.locate (opened file)).toOption = some location)
    (hfile : w.tree.at? location = some (.file (String.ofList chars).toUTF8))
    (hstack : w.stack = {}) (houtline : outlineOf chars = some lines) :
    ∃ e, Views args w e ∧ e.outline.lines 0 = lines := by
  have hread : w.readFile (opened file) = .ok (String.ofList chars).toUTF8 := by
    cases hlocated : w.locate (opened file) with
    | error fault => simp [hlocated, Except.toOption] at hlocate
    | ok found =>
      obtain rfl : found = location := by simpa [hlocated, Except.toOption] using hlocate
      exact Workspace.readFile_eq_ok.mpr (Workspace.entry_eq_ok.mpr ⟨found, hlocated, hfile⟩)
  have hdiscover := Settings.discover_of_find?_eq_none hfind
  have hall : (Settings.find? w file).all w.fitsSettings = true := by
    rw [hfind]
    rfl
  have hsource : w.stack.source (String.ofList chars).toUTF8 = true := by rw [hstack]
  have htext := ofFile?_toUTF8 (String.ofList chars)
  rw [String.toList_ofList] at htext
  unfold outlineOf at houtline
  cases he : Expr.ofSource (String.ofList (Text.withLineFeeds chars)) with
  | error fault => simp [he, Except.toOption] at houtline
  | ok e =>
    have hlines : e.outline.lines 0 = lines := by simpa [he, Except.toOption] using houtline
    exact ⟨e, ⟨verbose, file, {}, hargs, hfits, hall, hdiscover, _, _, hread, hsource, htext, he⟩,
      hlines⟩

/-- An object of JSON, written without blanks or with blanks and with its members in reverse. -/
def spelledObject (loose : Bool) (members : List (String × List Char)) : List Char :=
  let written := members.map fun (name, value) =>
    "\"".toList ++ name.toList ++ (if loose then "\" : " else "\":").toList ++ value
  "\x7b".toList ++
    (if loose then "\n , ".toList.intercalate written.reverse
      else ",".toList.intercalate written) ++ "\x7d".toList

/-- A match with lists within lists, strings and two clauses. -/
def spelledMatch (loose : Bool) : List Char :=
  let quoted := fun s : String => "\"".toList ++ s.toList ++ "\"".toList
  let list := fun items : List (List Char) =>
    "[".toList ++ (if loose then " , " else ",").toList.intercalate items ++ "]".toList
  let node := fun kind fields => spelledObject loose (("type", quoted kind) :: fields)
  let string := fun value => node "string" [("value", quoted value)]
  let empty := node "list" [("items", list [])]
  node "match" [
    ("subject", node "list" [("items", list [empty, string "it's"])]),
    ("clauses", list [
      spelledObject loose [
        ("pattern", node "list_tail" [("items", list [empty, string ""]), ("tail", quoted "t")]),
        ("body", node "lambda" [("params", list [quoted "a", quoted "b"]),
          ("body", node "var" [("name", quoted "t")])])],
      spelledObject loose [
        ("pattern", node "wildcard" []),
        ("body", string (if loose then "\\u0041\\n" else "A\\n"))]])]

def twoSpellings : Workspace where
  tree :=
    .directory [("f.json", .file (String.ofList (spelledMatch false)).toUTF8),
      ("g.json", .file (String.ofList (spelledMatch true)).toUTF8)]
  directory := []

def matchOutline : List String := [
  "MatchExpr",
  "  subject:",
  "    ListExpr",
  "      items:",
  "        ListExpr",
  "          items: []",
  "        StringLit",
  "          value: \"it's\"",
  "  clauses:",
  "    MatchClause",
  "      pattern:",
  "        ListTailPattern",
  "          items:",
  "            ListPattern",
  "              items: []",
  "            StringPattern",
  "              value: ''",
  "          tail: 't'",
  "      body:",
  "        LambdaExpr",
  "          params: ['a', 'b']",
  "          body:",
  "            VarExpr",
  "              name: 't'",
  "    MatchClause",
  "      pattern:",
  "        WildcardPattern",
  "      body:",
  "        StringLit",
  "          value: 'A\\n'"]

theorem view_faithful_twoSpellings :
    ∃ e e', Views ["view", "f.json"] twoSpellings e ∧
      Views ["-v", "view", "./g.json"] twoSpellings e' ∧ e = e' ∧
      (run false ["view", "f.json"] twoSpellings).session.out = printed matchOutline := by
  have hargs : Invocation.ofArgs? ["view", "f.json"] = some (.run false (.view "f.json")) := by
    decide +kernel
  have hargs' : Invocation.ofArgs? ["-v", "view", "./g.json"] =
      some (.run true (.view "./g.json")) := by
    decide +kernel
  have hlocate : (twoSpellings.locate (opened "f.json")).toOption = some ["f.json"] := by
    decide +kernel
  have hlocate' : (twoSpellings.locate (opened "./g.json")).toOption = some ["g.json"] := by
    decide +kernel
  have houtline : ∀ loose, outlineOf (spelledMatch loose) = some matchOutline := by
    intro loose
    rw [outlineOf, Expr.ofSource, Json.parse, String.toList_ofList]
    cases loose <;> decide +kernel
  obtain ⟨e, hviews, hlines⟩ : ∃ e, Views ["view", "f.json"] twoSpellings e ∧
      e.outline.lines 0 = matchOutline :=
    exists_views hargs (by decide +kernel) (by decide +kernel) hlocate rfl rfl (houtline false)
  obtain ⟨e', hviews', hlines'⟩ : ∃ e, Views ["-v", "view", "./g.json"] twoSpellings e ∧
      e.outline.lines 0 = matchOutline :=
    exists_views hargs' (by decide +kernel) (by decide +kernel) hlocate' rfl rfl (houtline true)
  obtain ⟨-, hout, hfaithful⟩ := view_faithful.2 _ _ _ _ e e' false true hviews hviews'
  obtain ⟨-, hout', -⟩ := view_faithful.2 _ _ _ _ e' e true false hviews' hviews
  rw [hlines] at hout
  rw [hlines'] at hout'
  exact ⟨e, e', hviews, hviews', hfaithful (hout.trans hout'.symm), hout⟩

end Command
end CaseScript
