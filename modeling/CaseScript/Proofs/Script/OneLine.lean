import CaseScript.Proofs.Doc.OneLine
import CaseScript.Proofs.Script.Levels

/-!
# Scripts on one line

The script of a tree without local definitions and matches holds no block, so it can stand on one
line. It does if the line is wide enough; a list that is too wide for its line has a line for each
item.
-/

namespace CaseScript

/-- The text of the script for a tree, with no group broken. -/
def Expr.flatScript (settings : Settings) (e : Expr) : Except NamingFault String :=
  (e.emission settings).result.map (·.doc.flatText)

/-! ## Trees without blocks -/

mutual

/-- Is a tree free of local definitions and of matches, for which a script needs blocks? -/
def Expr.Blockless : Expr → Prop
  | .literal _ | .var _ => True
  | .list items => Expr.AllBlockless items
  | .binop _ left right => left.Blockless ∧ right.Blockless
  | .letIn _ _ _ | .cases _ _ => False
  | .apply function args => function.Blockless ∧ Expr.AllBlockless args
  | .lambda _ body => body.Blockless

def Expr.AllBlockless : List Expr → Prop
  | [] => True
  | item :: rest => item.Blockless ∧ Expr.AllBlockless rest

end

/-- Is a tree written as one group with breaks of its own, or as a name and such a group? -/
def Expr.IsGroup : Expr → Prop
  | .list items => items ≠ []
  | .apply (.var _) args => args ≠ []
  | .lambda _ _ => True
  | _ => False

theorem Expr.allBlockless_iff {items : List Expr} :
    Expr.AllBlockless items ↔ ∀ item ∈ items, item.Blockless := by
  induction items with
  | nil => simp [AllBlockless]
  | cons item rest ih => rw [AllBlockless, ih, List.forall_mem_cons]

namespace Script

open Doc

variable {subjects : Trail → String} {shadowing : Bool}

mutual

/-- Without a match it makes no difference where a tree stands. -/
theorem Yields.elsewhere {trail : Trail} {e : Expr} {term : Term}
    (h : Yields subjects shadowing trail e term) (hblockless : e.Blockless) (trail' : Trail) :
    Yields subjects shadowing trail' e term := by
  cases h with
  | literal trail value => exact .literal trail' value
  | var trail valid => exact .var trail' valid
  | list hitems => exact .list (hitems.elsewhere hblockless _ _)
  | binop hleft valid hright =>
    exact .binop (hleft.elsewhere hblockless.1 _) valid (hright.elsewhere hblockless.2 _)
  | letIn valid hvalue hbody => exact absurd hblockless id
  | apply hfunction hargs =>
    exact .apply (hfunction.elsewhere hblockless.1 _) (hargs.elsewhere hblockless.2 _ _)
  | lambda valid distinct hbody => exact .lambda valid distinct (hbody.elsewhere hblockless _)
  | cases hsubject hclauses => exact absurd hblockless id

theorem YieldsItems.elsewhere {trail : Trail} {index : Nat} {items : List Expr}
    {terms : List Term} (h : YieldsItems subjects shadowing trail index items terms)
    (hblockless : Expr.AllBlockless items) (trail' : Trail) (index' : Nat) :
    YieldsItems subjects shadowing trail' index' items terms := by
  cases h with
  | nil trail index => exact .nil trail' index'
  | cons hitem hrest =>
    exact .cons (hitem.elsewhere hblockless.1 _) (hrest.elsewhere hblockless.2 _ _)

end

/-! ## Formats -/

section Formats

variable {opening closing : String} {docs : List Doc}

theorem lineless_enclosed (opening closing : String) (h : ∀ doc ∈ docs, doc.Lineless) :
    (enclosed opening docs closing).Lineless := by
  unfold enclosed
  split
  · trivial
  · exact ⟨trivial, ⟨trivial, lineless_join ⟨trivial, trivial⟩ h⟩, trivial, trivial, trivial⟩

theorem newline_notMem_enclosed (hopening : '\n' ∉ opening.toList)
    (hclosing : '\n' ∉ closing.toList) (h : ∀ doc ∈ docs, '\n' ∉ doc.flatText.toList) :
    '\n' ∉ (enclosed opening docs closing).flatText.toList := by
  have hitems : '\n' ∉ (join comma docs).flatText.toList := newline_notMem_join (by decide) h
  unfold enclosed
  split <;> simp [flatText, softBreak, hopening, hclosing, hitems]

theorem oneLine_wrapped (hopening : '\n' ∉ opening.toList) (hclosing : '\n' ∉ closing.toList)
    (h : ∀ doc ∈ docs, doc.OneLine) : (wrapped opening docs closing).OneLine where
  grouped := lineless_enclosed opening closing fun doc hdoc => (h doc hdoc).grouped.lineless
  newline_notMem :=
    newline_notMem_enclosed hopening hclosing fun doc hdoc => (h doc hdoc).newline_notMem

theorem splits_enclosed (opening closing : String) (hne : docs ≠ []) :
    (enclosed opening docs closing).Splits := by
  rw [enclosed, if_neg (by simpa using hne)]
  exact .inr (.inl (.inl trivial))

/-- The break in front of a function's body. -/
theorem splits_arrow (params : List String) (body : Doc) :
    (concat [enclosed "(" (params.map text) ")", text " =>",
      nestIfBroken indentation (space ++ body)]).Splits := by
  simp [Splits, space]

theorem oneLine_arrowDoc {params : List String} (hparams : ∀ param ∈ params, '\n' ∉ param.toList)
    {body : Doc} (h : body.OneLine) : (arrowDoc params body).OneLine := by
  have hlineless : (enclosed "(" (params.map text) ")").Lineless := by
    apply lineless_enclosed
    rw [List.forall_mem_map]
    exact fun _ _ => trivial
  have hnames : '\n' ∉ (enclosed "(" (params.map text) ")").flatText.toList := by
    apply newline_notMem_enclosed (by decide) (by decide)
    rw [List.forall_mem_map]
    exact hparams
  refine ⟨⟨hlineless, trivial, ⟨trivial, h.grouped.lineless⟩, trivial⟩, ?_⟩
  simp [arrowDoc, flatText, space, hnames, h.newline_notMem]

theorem oneLine_parenthesized (needed : Bool) {doc : Doc} (h : doc.OneLine) :
    (parenthesized needed doc).OneLine := by
  unfold parenthesized
  split
  · exact ⟨⟨trivial, h.grouped, trivial, trivial⟩, by simp [flatText, h.newline_notMem]⟩
  · exact h

end Formats

/-! ## Scripts without blocks -/

mutual

theorem oneLine_doc {trail : Trail} {e : Expr} {term : Term}
    (h : Yields subjects shadowing trail e term) (hblockless : e.Blockless) :
    term.doc.OneLine := by
  cases h with
  | literal trail value => exact oneLine_text value.newline_notMem_written
  | var trail valid => exact oneLine_text (Name.newline_notMem_identifier valid)
  | list hitems => exact oneLine_wrapped (by decide) (by decide) (oneLine_docs hitems hblockless)
  | binop hleft valid hright =>
    have hleftDoc := oneLine_doc hleft hblockless.1
    have hrightDoc := oneLine_doc hright hblockless.2
    refine ⟨⟨hleftDoc.grouped, trivial, hrightDoc.grouped, trivial⟩, ?_⟩
    simp [Term.doc, flatText, hleftDoc.newline_notMem, hrightDoc.newline_notMem,
      Text.newline_notMem_operator valid]
  | letIn valid hvalue hbody => exact absurd hblockless id
  | apply hfunction hargs =>
    exact (oneLine_parenthesized _ (oneLine_doc hfunction hblockless.1)).append
      (oneLine_wrapped (by decide) (by decide) (oneLine_docs hargs hblockless.2))
  | lambda valid distinct hbody =>
    apply oneLine_arrowDoc _ (oneLine_doc hbody hblockless)
    rw [List.forall_mem_map]
    exact fun param hparam => Name.newline_notMem_identifier (valid param hparam)
  | cases hsubject hclauses => exact absurd hblockless id

theorem oneLine_docs {trail : Trail} {index : Nat} {items : List Expr} {terms : List Term}
    (h : YieldsItems subjects shadowing trail index items terms)
    (hblockless : Expr.AllBlockless items) : ∀ doc ∈ Term.docs terms, doc.OneLine := by
  cases h with
  | nil trail index => exact List.forall_mem_nil _
  | cons hitem hrest =>
    rw [Term.docs, List.forall_mem_cons]
    exact ⟨oneLine_doc hitem hblockless.1, oneLine_docs hrest hblockless.2⟩

end

theorem YieldsItems.docs_ne_nil {trail : Trail} {index : Nat} {items : List Expr}
    {terms : List Term} (h : YieldsItems subjects shadowing trail index items terms)
    (hne : items ≠ []) : Term.docs terms ≠ [] := by
  cases h with
  | nil trail index => exact absurd rfl hne
  | cons hitem hrest => exact List.cons_ne_nil _ _

/-- A group that is the last thing on its line is broken if the line is too narrow for it. -/
theorem newline_mem_render {trail : Trail} {e : Expr} {term : Term}
    (h : Yields subjects shadowing trail e term) (hblockless : e.Blockless) (hgroup : e.IsGroup)
    {width : Int} (hwide : width < term.doc.flatText.length) :
    '\n' ∈ (term.render width).toList := by
  have hgrouped := (oneLine_doc h hblockless).grouped
  rw [Term.render, render_eq_arrange, String.toList_ofList]
  cases h with
  | list hitems =>
    have hsplits := splits_enclosed "[" "]" (hitems.docs_ne_nil hgroup)
    exact newline_mem_arrange_group hgrouped hsplits (by rwa [Int.zero_add]) 0 []
  | lambda valid distinct hbody =>
    exact newline_mem_arrange_group hgrouped (splits_arrow _ _) (by rwa [Int.zero_add]) 0 []
  | apply hfunction hargs =>
    cases hfunction with
    | var trail valid =>
      rename_i argTerms name
      have hsplits := splits_enclosed "(" ")" (hargs.docs_ne_nil hgroup)
      have hlength : (Term.call (.name (Name.identifier name)) argTerms).doc.flatText.length =
          (Name.identifier name).length +
            (enclosed "(" (Term.docs argTerms) ")").flatText.length := String.length_append ..
      have hroom : width < 0 + ((Name.identifier name).length : Int) +
          (enclosed "(" (Term.docs argTerms) ")").flatText.length := by omega
      exact List.mem_append_right _ (newline_mem_arrange_group hgrouped.2 hsplits hroom 0 [])
    | _ => exact absurd hgroup id
  | _ => exact absurd hgroup id

theorem flatScript_eq_ok {settings : Settings} {e : Expr} {flat : String} :
    e.flatScript settings = .ok flat ↔
      ∃ term, Yields oneSubject settings.allowShadowing (.root "expr") e term ∧
        term.doc.flatText = flat := by
  simp only [yields_iff]
  rw [Expr.flatScript, Expr.emission]
  cases (ofExpr settings.allowShadowing (.root "expr") e).result <;> simp [Except.map]

theorem script_eq_ok {settings : Settings} {e : Expr} {term : Term}
    (h : Yields oneSubject settings.allowShadowing (.root "expr") e term) :
    e.script settings = .ok (term.render settings.width) := by
  rw [Expr.script, Expr.emission, yields_iff.mp h]
  rfl

variable {e : Expr} {settings : Settings} {flat : String}

/-- The script of a tree without local definitions and matches is one line where it may be: if the
line has room for it. Any output on one line is this text. Where the line has no room, the output of
a list with items, of a variable's call with arguments, or of a function has several lines. -/
theorem one_line_if_room (hflat : e.flatScript settings = .ok flat) (hblockless : e.Blockless) :
    '\n' ∉ flat.toList ∧ ∃ script, e.script settings = .ok script ∧
      (flat.length ≤ settings.width → script = flat) ∧
      ('\n' ∉ script.toList → script = flat) ∧
      (e.IsGroup → settings.width < flat.length → '\n' ∈ script.toList) := by
  obtain ⟨term, hterm, rfl⟩ := flatScript_eq_ok.mp hflat
  have hdoc := oneLine_doc hterm hblockless
  refine ⟨hdoc.newline_notMem, _, script_eq_ok hterm, ?room, ?line, ?wide⟩
  case room => exact render_of_room hdoc.grouped
  case line => exact render_eq_flatText
  case wide => exact fun hgroup => newline_mem_render hterm hblockless hgroup

/-- `[f(x)(y), (a) => a + 1]` -/
def callAndFunction : Expr :=
  let a := Text.ofString "a"
  .list
    [.apply (.apply (.var (Text.ofString "f")) [.var (Text.ofString "x")])
        [.var (Text.ofString "y")],
      .lambda [a] (.binop (Text.ofString "+") (.var a) (.literal (.int 1)))]

/-- The text has 23 characters. -/
theorem one_line_if_room_callAndFunction :
    callAndFunction.Blockless ∧ callAndFunction.IsGroup ∧
      callAndFunction.flatScript ⟨23, false⟩ = .ok "[f(x)(y), (a) => a + 1]" ∧
      callAndFunction.script ⟨23, false⟩ = .ok "[f(x)(y), (a) => a + 1]" ∧
      ∃ script, callAndFunction.script ⟨22, false⟩ = .ok script ∧ '\n' ∈ script.toList := by
  have hblockless : callAndFunction.Blockless := by
    simp [callAndFunction, Expr.Blockless, Expr.AllBlockless]
  have hgroup : callAndFunction.IsGroup := List.cons_ne_nil _ _
  have hflat : ∀ width : Int,
      callAndFunction.flatScript ⟨width, false⟩ = .ok "[f(x)(y), (a) => a + 1]" := fun _ => rfl
  obtain ⟨-, script, hscript, hroom, -⟩ := one_line_if_room (hflat 23) hblockless
  obtain ⟨-, narrow, hnarrow, -, -, hwide⟩ := one_line_if_room (hflat 22) hblockless
  rw [hroom (by decide)] at hscript
  exact ⟨hblockless, hgroup, hflat 23, hscript, narrow, hnarrow, hwide hgroup (by decide)⟩

/-! ## One item a line -/

/-- A line that holds one item of a list, and the newline behind it. -/
def itemLine (item : String) : String := "  " ++ item ++ ",\n"

/-- Items that have room for themselves and a comma get a line each. The last one has no comma in
front of its break, but one is written when the break ends the line. -/
theorem arrange_items {docs : List Doc} (hne : docs ≠ []) (hgrouped : ∀ doc ∈ docs, doc.Grouped)
    {width : Int} (hroom : ∀ doc ∈ docs, doc.flatText.length ≤ width - 3) {following : Following}
    (hfollowing : leadAll following = []) :
    "  ".toList ++ ((join comma docs).arrange width indentation .broken following indentation).1 ++
        ",\n".toList = docs.flatMap fun doc => (itemLine doc.flatText).toList := by
  induction docs with
  | nil => exact absurd rfl hne
  | cons doc rest ih =>
    rw [List.forall_mem_cons] at hgrouped hroom
    have hdoc : ∀ following : Following, (leadAll following).length ≤ 1 →
        doc.arrange width indentation .broken following indentation =
          (doc.flatText.toList, indentation + doc.flatText.length) := by
      intro following hlead
      apply arrange_of_room hgrouped.1
      unfold indentation
      omega
    cases rest with
    | nil =>
      have hempty : leadAll ((.broken, empty) :: following) = [] := hfollowing
      have hlast := hdoc ((.broken, empty) :: following) (by simp [hempty])
      have hjoin : join comma [doc] = append doc empty := rfl
      simp only [hjoin, arrange, hlast, List.append_nil, List.flatMap_singleton, itemLine,
        String.toList_append]
    | cons next rest =>
      have hjoin : join comma (doc :: next :: rest) =
          append doc (append comma (join comma (next :: rest))) := rfl
      have hfirst := hdoc ((.broken, append comma (join comma (next :: rest))) :: following)
        (Nat.le_refl 1)
      have hcomma : ∀ following c, comma.arrange width indentation .broken following c =
          (",\n".toList ++ "  ".toList, indentation) := fun _ _ => rfl
      rw [hjoin, List.flatMap_cons, ← ih (List.cons_ne_nil next rest) hgrouped.2 hroom.2]
      simp only [arrange, hfirst, hcomma, itemLine, String.toList_append, List.append_assoc]

/-- A list that is broken has its brackets on lines of their own. -/
theorem arrange_broken_list {docs : List Doc} (hne : docs ≠ []) (width : Int) :
    ((enclosed "[" docs "]").arrange width 0 .broken [] 0).1 =
      "[\n".toList ++ ("  ".toList ++ ((join comma docs).arrange width indentation .broken
        [(.broken, concat [brk "" ",", text "]"])] indentation).1 ++ ",\n".toList) ++
          "]".toList := by
  have hbracket : "[\n".toList = "[".toList ++ "\n".toList := rfl
  have hfirst : newline indentation = "\n".toList ++ "  ".toList := rfl
  have hlast : ",\n".toList = ",".toList ++ newline 0 := rfl
  rw [enclosed, if_neg (by simpa using hne)]
  simp only [concat_cons, concat_nil, append_eq, softBreak, arrange, Int.zero_add, hbracket, hfirst,
    hlast, String.toList_empty, List.nil_append, List.append_nil, List.append_assoc]

/-- A list that is too wide for its line, with items that leave room for their indentation and a
comma. -/
theorem render_wide_list {docs : List Doc} (hne : docs ≠ []) (hgrouped : ∀ doc ∈ docs, doc.Grouped)
    {width : Int} (hwide : width < (wrapped "[" docs "]").flatText.length)
    (hroom : ∀ doc ∈ docs, doc.flatText.length ≤ width - 3) :
    (wrapped "[" docs "]").render width =
      "[\n" ++ String.join (docs.map fun doc => itemLine doc.flatText) ++ "]" := by
  have hlineless : (enclosed "[" docs "]").Lineless :=
    lineless_enclosed "[" "]" fun doc hdoc => (hgrouped doc hdoc).lineless
  have hlines : ((wrapped "[" docs "]").arrange width 0 .broken [] 0).1 =
      "[\n".toList ++ (docs.flatMap fun doc => (itemLine doc.flatText).toList) ++ "]".toList := by
    rw [wrapped, arrange_group_of_no_room hlineless (by rwa [Int.zero_add]),
      arrange_broken_list hne, arrange_items hne hgrouped hroom rfl]
  apply String.toList_injective
  simp only [render_eq_arrange, String.toList_ofList, hlines, String.toList_append,
    String.toList_join, List.flatMap_map]

/-- Each item of a list has the script that it has as a tree of its own. -/
theorem YieldsItems.flatScripts {trail : Trail} {index : Nat} {items : List Expr}
    {terms : List Term}
    (h : YieldsItems oneSubject settings.allowShadowing trail index items terms)
    (hblockless : Expr.AllBlockless items) :
    List.Forall₂ (fun item line => item.flatScript settings = .ok line) items
      ((Term.docs terms).map flatText) := by
  induction items generalizing index terms with
  | nil =>
    cases h
    exact .nil
  | cons item rest ih =>
    cases h with
    | cons hitem hrest =>
      have hroot := hitem.elsewhere hblockless.1 (.root "expr")
      exact .cons (flatScript_eq_ok.mpr ⟨_, hroot, rfl⟩) (ih hrest hblockless.2)

/-- A list that is too wide for its line has a line for each item, indented and with a comma behind
it, if the items are not too wide for such lines themselves. -/
theorem wide_list_script {items : List Expr}
    (hflat : (Expr.list items).flatScript settings = .ok flat)
    (hblockless : ∀ item ∈ items, item.Blockless) (hne : items ≠ [])
    (hwide : settings.width < flat.length) :
    ∃ lines, List.Forall₂ (fun item line => item.flatScript settings = .ok line) items lines ∧
      ((∀ line ∈ lines, line.length ≤ settings.width - 3) →
        (Expr.list items).script settings =
          .ok ("[\n" ++ String.join (lines.map itemLine) ++ "]")) := by
  have hitemsBlockless := Expr.allBlockless_iff.mpr hblockless
  obtain ⟨term, hterm, rfl⟩ := flatScript_eq_ok.mp hflat
  have hscript := script_eq_ok hterm
  cases hterm with
  | list hitems =>
    have hgrouped : ∀ doc ∈ Term.docs _, doc.Grouped :=
      fun doc hdoc => (oneLine_docs hitems hitemsBlockless doc hdoc).grouped
    refine ⟨_, hitems.flatScripts hitemsBlockless, fun hroom => ?_⟩
    rw [List.forall_mem_map] at hroom
    rw [hscript, Term.render, Term.doc,
      render_wide_list (hitems.docs_ne_nil hne) hgrouped hwide hroom, List.map_map]
    rfl

/-- `[f(x), y]` and `a + b` -/
def pairAndSum : List Expr :=
  [.list [.apply (.var (Text.ofString "f")) [.var (Text.ofString "x")], .var (Text.ofString "y")],
    .binop (Text.ofString "+") (.var (Text.ofString "a")) (.var (Text.ofString "b"))]

/-- The first item just fits: its line has twelve characters. -/
theorem wide_list_script_pairAndSum :
    (Expr.list pairAndSum).flatScript ⟨12, false⟩ = .ok "[[f(x), y], a + b]" ∧
      (∀ item ∈ pairAndSum, item.Blockless) ∧
      (Expr.list pairAndSum).script ⟨12, false⟩ = .ok "[\n  [f(x), y],\n  a + b,\n]" := by
  have hflat : (Expr.list pairAndSum).flatScript ⟨12, false⟩ = .ok "[[f(x), y], a + b]" := rfl
  have hblockless : ∀ item ∈ pairAndSum, item.Blockless := by
    simp [pairAndSum, Expr.Blockless, Expr.AllBlockless]
  obtain ⟨lines, hlines, hscript⟩ :=
    wide_list_script hflat hblockless (List.cons_ne_nil _ _) (by decide)
  obtain rfl : lines = ["[f(x), y]", "a + b"] := by
    cases hlines with
    | cons hpair hrest =>
      cases hrest with
      | cons hsum hnil =>
        cases hnil
        cases hpair
        cases hsum
        rfl
  exact ⟨hflat, hblockless, hscript (by decide)⟩

end Script
end CaseScript
