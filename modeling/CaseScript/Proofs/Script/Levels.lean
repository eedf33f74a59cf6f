import CaseScript.Proofs.Doc.Triples
import CaseScript.Proofs.Expr.FreeNames
import CaseScript.Proofs.Script.Derivation
import CaseScript.Proofs.Script.FlatText
import CaseScript.Proofs.Script.Unbroken
import CaseScript.Proofs.Text.Margin

/-!
# The indentation of scripts

Wherever the layout of a script comes to an expression, the line is indented at least as far as the
lines that start inside the expression are to be. A line is indented further only where it goes on
behind the body of a function that was broken into lines.
-/

namespace CaseScript

namespace Expr

/-- Is the last part of an expression the body of a function? -/
def endsInFunction : Expr → Bool
  | lambda _ _ => true
  | binop _ _ right => right.endsInFunction
  | _ => false

/-- Does an expression go on behind the body of a function? -/
def continuesFunction : Expr → Bool
  | binop _ left _ => left.endsInFunction
  | apply function _ => function.endsInFunction
  | _ => false

end Expr

namespace Text

/-- Does a text stand on one line and begin with something other than a space? -/
def Visible (s : List Char) : Prop := '\n' ∉ s ∧ ∃ c t, s = c :: t ∧ c ≠ ' '

end Text

namespace Doc

/-- Is a document what comes behind the opening of a block: lines further in, and a line below? -/
def isBlockRest : Doc → Bool
  | append (nest _ _) (append line _) => true
  | _ => false

/-- Can a document open a block? -/
def isOpening : Doc → Bool
  | text _ | group _ => true
  | _ => false

theorem isBlockRest_append_text (first : Doc) (t : String) (rest : Doc) :
    (append first (append (text t) rest)).isBlockRest = false := by
  cases first <;> rfl

theorem isBlockRest_append_empty (first : Doc) : (append first empty).isBlockRest = false := by
  cases first <;> rfl

end Doc

namespace Script

open Doc Text

/-! ## Situations -/

/-- A line that is indented by at least `i`, and by just `i` if all is `straight`. -/
def Level (straight : Prop) (i : Int) : Situation := fun s _ =>
  i ≤ margin s ∧ (straight → margin s = i)

/-- The same behind the first character of the line that is no space. -/
def Inside (straight : Prop) (i : Int) : Situation := fun s c => Inked s ∧ Level straight i s c

/-- The start of a line of its own. -/
def LineStart (i : Int) : Situation := fun s c => c = i ∧ ∃ front, s = front ++ newline i

/-- Where a function that is called at once begins, the line is as deep as its last line will be. A
condition begins a line of its own, and it could stand on this line. -/
def alignment (straight : Prop) : Note := fun first second i _ s c =>
  second.isBlockRest = true →
    (first = text "(() => \x7b" → 0 ≤ i ∧ Level straight i s c) ∧
      ∀ header, first = group header →
        0 ≤ i ∧ LineStart i s c ∧ '\n' ∉ header.flatText.toList

/-- A document that is met on a level line leaves it level as long as it is flat. In broken mode the
line that it ends on may be indented further. -/
def KeepsLevel (straight : Prop) (doc : Doc) : Prop :=
  ∀ i m, 0 ≤ i → Triple (alignment straight) i m (Level straight i) doc
    (Inside (straight ∧ m = .flat) i)

section Situations

variable {P Q : Prop} {i : Int} {s t : List Char} {c : Int}

theorem Inside.level (h : Inside P i s c) : Level P i s c := h.2

theorem Level.mono (h : Level P i s c) (hstraight : Q → P) : Level Q i s c :=
  ⟨h.1, fun hq => h.2 (hstraight hq)⟩

theorem Inside.mono (h : Inside P i s c) (hstraight : Q → P) : Inside Q i s c :=
  ⟨h.1, h.2.mono hstraight⟩

theorem Level.visible (h : Level P i s c) (ht : Visible t) (c' : Int) :
    Inside P i (s ++ t) c' := by
  obtain ⟨hnewline, first, rest, rfl, hink⟩ := ht
  refine ⟨inked_append hnewline List.mem_cons_self hink, ?_⟩
  rw [Level, margin_append_ink hnewline hink]
  exact h

theorem Inside.append (h : Inside P i s c) (ht : '\n' ∉ t) (c' : Int) : Inside P i (s ++ t) c' := by
  refine ⟨h.1.append ht, ?_⟩
  rw [Level, h.1.margin_append ht]
  exact h.2

theorem level_newline (hi : 0 ≤ i) (s : List Char) (c : Int) : Level P i (s ++ newline i) c := by
  rw [Level, margin_newline]
  omega

theorem LineStart.level (h : LineStart i s c) (hi : 0 ≤ i) : Level P i s c := by
  obtain ⟨-, front, rfl⟩ := h
  exact level_newline hi front c

theorem add_indentation_nonneg (hi : 0 ≤ i) : 0 ≤ i + indentation := by
  unfold indentation
  omega

end Situations

/-! ## Formats -/

/-- The line or lines of a condition, down to the brace. -/
def header (tests : List Doc) : Doc :=
  concat [text "if (", nest indentation (softBreak ++ conjunction tests), softBreak, text ") \x7b"]

theorem lineless_header {tests : List Doc} (h : ∀ test ∈ tests, test.Lineless) :
    (header tests).Lineless :=
  ⟨trivial, ⟨trivial, lineless_join ⟨trivial, trivial⟩ h⟩, trivial, trivial, trivial⟩

theorem newline_notMem_join {separator : Doc} {docs : List Doc}
    (hseparator : '\n' ∉ separator.flatText.toList)
    (h : ∀ doc ∈ docs, '\n' ∉ doc.flatText.toList) :
    '\n' ∉ (join separator docs).flatText.toList := by
  induction docs with
  | nil => exact List.not_mem_nil
  | cons doc rest ih =>
    rw [List.forall_mem_cons] at h
    cases rest with
    | nil => simpa [join, flatText] using h.1
    | cons next rest =>
      have hrest := ih h.2
      rw [join] at hrest
      simp only [join, List.intersperse_cons_cons, concat_cons, flatText, String.toList_append,
        List.mem_append, not_or]
      exact ⟨h.1, hseparator, hrest⟩

theorem newline_notMem_header {tests : List Doc} (h : ∀ test ∈ tests, '\n' ∉ test.flatText.toList) :
    '\n' ∉ (header tests).flatText.toList := by
  have htests : '\n' ∉ (conjunction tests).flatText.toList := newline_notMem_join (by decide) h
  simp [header, flatText, softBreak, htests]

section Formats

variable {P Q : Prop} {i : Int} {m : Mode} {before after : Situation}

/-- Nothing is noted of two documents that do not begin a block. -/
theorem alignment_of_eq_false {first second : Doc}
    (h : first.isOpening = false ∨ second.isBlockRest = false) (s : List Char) (c : Int) :
    alignment P first second i m s c := by
  intro hrest
  rcases h with h | h
  · refine ⟨?_, ?_⟩
    · rintro rfl
      exact absurd h nofun
    · rintro header rfl
      exact absurd h nofun
  · exact absurd (h.symm.trans hrest) nofun

theorem triple_past {between : Situation} {first second : Doc}
    (h : first.isOpening = false ∨ second.isBlockRest = false)
    (hfirst : Triple (alignment P) i m before first between)
    (hsecond : Triple (alignment P) i m between second after) :
    Triple (alignment P) i m before (append first second) after :=
  triple_append (fun s c _ => alignment_of_eq_false h s c) hfirst hsecond

/-- Documents that are separated by what opens no block. -/
theorem triple_separated {separator : Doc} {docs : List Doc} (hne : docs ≠ [])
    (h : separator.isOpening = false)
    (h' : ∀ rest, (append separator rest).isBlockRest = false)
    (hdocs : ∀ doc ∈ docs, Triple (alignment P) i m before doc after)
    (hseparator : Triple (alignment P) i m after separator before) :
    Triple (alignment P) i m before (join separator docs) after := by
  refine triple_join hne ?_ ?_ ?_ hdocs hseparator
  · exact fun first second i m => alignment_of_eq_false (.inr (h' second))
  · exact fun second i m => alignment_of_eq_false (.inl h)
  · exact fun first i m => alignment_of_eq_false (.inr rfl)

theorem triple_visible {t : String} (h : Visible t.toList) :
    Triple (alignment P) i m (Level Q i) (text t) (Inside Q i) :=
  triple_text fun _ _ hs => hs.visible h _

theorem triple_further {t : String} (h : '\n' ∉ t.toList) :
    Triple (alignment P) i m (Inside Q i) (text t) (Inside Q i) :=
  triple_text fun _ _ hs => hs.append h _

theorem triple_last {t : String} (h : Visible t.toList) :
    Triple (alignment P) i m (Level Q i) (append (text t) empty) (Inside Q i) :=
  triple_past (.inr rfl) (triple_visible h) (triple_empty fun _ _ hs => hs)

theorem triple_flatBreak {flat broken : String} (h : '\n' ∉ flat.toList) :
    Triple (alignment P) i .flat (Inside Q i) (brk flat broken) (Inside Q i) :=
  triple_flatBrk fun _ _ hs => hs.append h _

theorem triple_brokenBreak {flat broken : String} (hi : 0 ≤ i) :
    Triple (alignment P) i .broken before (brk flat broken) (Level Q i) := by
  refine triple_brokenBrk fun s c _ => ?_
  rw [← List.append_assoc]
  exact level_newline hi _ i

/-- No block begins in a document whose newlines are all breaks. -/
theorem triple_lineless {doc : Doc} (h : doc.Lineless) :
    Triple (alignment P) i m before doc Anywhere := by
  induction doc generalizing i m before with
  | empty => exact triple_empty fun _ _ _ => trivial
  | text t => exact triple_text fun _ _ _ => trivial
  | line => exact absurd h id
  | brk flat broken =>
    cases m with
    | flat => exact triple_flatBrk fun _ _ _ => trivial
    | broken => exact triple_brokenBrk fun _ _ _ => trivial
  | append first second ihfirst ihsecond =>
    have hrest : second.isBlockRest = false := by
      unfold isBlockRest
      split
      · exact absurd h.2.2.1 id
      · rfl
    exact triple_past (.inr hrest) (ihfirst h.1) (ihsecond h.2)
  | nest n doc ih => exact triple_nest (ih h)
  | nestIfBroken n doc ih =>
    cases m with
    | flat => exact triple_flatNest (ih h)
    | broken => exact triple_brokenNest (ih h)
  | group doc ih => exact triple_group (ih h) fun _ => ih h

/-- Statements between an opening and a closing line. -/
theorem triple_framed {opening : Doc} {stmts : List Doc} {closing : String} (hi : 0 ≤ i)
    (hclosing : Visible closing.toList)
    (hnote : ∀ s c, before s c → (opening = text "(() => \x7b" → Level P i s c) ∧
      ∀ header, opening = group header → LineStart i s c ∧ '\n' ∉ header.flatText.toList)
    (hopening : Triple (alignment P) i m before opening Anywhere)
    (hstmts : ∀ stmt ∈ stmts, Triple (alignment P) (i + indentation) m
      (LineStart (i + indentation)) stmt Anywhere) :
    Triple (alignment P) i m before (concat [opening, indented stmts, line, text closing])
      (Inside P i) := by
  have hline : Triple (alignment P) (i + indentation) m Anywhere line
      (LineStart (i + indentation)) := triple_line fun s c _ => ⟨rfl, s, rfl⟩
  have hlines : Triple (alignment P) (i + indentation) m Anywhere (line ++ join line stmts)
      Anywhere := by
    refine triple_past (.inl rfl) hline ?_
    by_cases hempty : stmts = []
    · subst hempty
      exact triple_empty fun _ _ _ => trivial
    · exact triple_separated hempty rfl (fun _ => rfl) hstmts hline
  have hbelow : Triple (alignment P) i m Anywhere (append line (append (text closing) empty))
      (Inside P i) :=
    triple_past (.inl rfl) (triple_line fun s c _ => level_newline hi s i) (triple_last hclosing)
  refine triple_append (fun s c hs _ => ?_) hopening
    (triple_past (.inl rfl) (triple_nest hlines) hbelow)
  obtain ⟨hlevel, hstart⟩ := hnote s c hs
  exact ⟨fun h => ⟨hi, hlevel h⟩, fun header h => ⟨hi, hstart header h⟩⟩

theorem triple_immediate {stmts : List Doc} (hi : 0 ≤ i)
    (hstmts : ∀ stmt ∈ stmts, Triple (alignment P) (i + indentation) m
      (LineStart (i + indentation)) stmt Anywhere) :
    Triple (alignment P) i m (Level P i) (immediate stmts) (Inside P i) := by
  have hopening : Triple (alignment P) i m (Level P i) (text "(() => \x7b") Anywhere :=
    triple_lineless trivial
  have hclosing : Visible "\x7d)()".toList := ⟨by decide, '\x7d', _, rfl, by decide⟩
  exact triple_framed hi hclosing (fun _ _ hs => ⟨fun _ => hs, nofun⟩) hopening hstmts

theorem triple_conditional {tests body : List Doc} (hi : 0 ≤ i)
    (htests : ∀ test ∈ tests, test.Lineless ∧ '\n' ∉ test.flatText.toList)
    (hbody : ∀ stmt ∈ body, Triple (alignment P) (i + indentation) m
      (LineStart (i + indentation)) stmt Anywhere) :
    Triple (alignment P) i m (LineStart i) (conditional tests body) Anywhere := by
  have hheader : Triple (alignment P) i m (LineStart i) (group (header tests)) Anywhere :=
    triple_lineless (lineless_header fun test htest => (htests test htest).1)
  have hclosing : Visible "\x7d".toList := ⟨by decide, '\x7d', _, rfl, by decide⟩
  have hnote : ∀ s c, LineStart i s c →
      (group (header tests) = text "(() => \x7b" → Level P i s c) ∧
        ∀ inner, group (header tests) = group inner →
          LineStart i s c ∧ '\n' ∉ inner.flatText.toList := by
    refine fun s c hs => ⟨nofun, ?_⟩
    rintro inner ⟨⟩
    exact ⟨hs, newline_notMem_header fun test htest => (htests test htest).2⟩
  exact (triple_framed hi hclosing hnote hheader hbody).anywhere

/-- Items in a flat group go on in the line. In a broken group each has a line further in. -/
theorem triple_enclosed {opening closing : String} {items : List Doc} (hi : 0 ≤ i)
    (hopening : Visible opening.toList) (hclosing : Visible closing.toList)
    (hitems : ∀ item ∈ items, KeepsLevel P item) :
    Triple (alignment P) i m (Level P i) (enclosed opening items closing) (Inside P i) := by
  unfold enclosed
  split
  · refine triple_visible ?_
    obtain ⟨hnewline, c, rest, hlist, hink⟩ := hopening
    rw [String.toList_append]
    exact ⟨List.not_mem_append hnewline hclosing.1, c, rest ++ closing.toList, by rw [hlist]; rfl,
      hink⟩
  · rename_i hempty
    have hne : items ≠ [] := by simpa using hempty
    refine triple_past (.inr rfl) (triple_visible hopening) ?_
    cases m with
    | flat =>
      have hflat : ∀ item ∈ items, Triple (alignment P) i .flat (Level P i) item (Inside P i) :=
        fun item hitem => (hitems item hitem i .flat hi).imp
          fun _ _ hs => hs.mono fun hp => ⟨hp, rfl⟩
      have hcomma : Triple (alignment P) i .flat (Inside P i) comma (Level P i) :=
        (triple_past (.inr rfl) (triple_further (by decide)) (triple_flatBreak (by decide))).imp
          fun _ _ hs => hs.level
      have hall : Triple (alignment P) i .flat (Inside P i) (softBreak ++ join comma items)
          (Inside P i) :=
        triple_past (.inl rfl) ((triple_flatBreak (by decide)).imp fun _ _ hs => hs.level)
          (triple_separated hne rfl (fun _ => rfl) hflat hcomma)
      exact triple_past (.inr rfl) (triple_flatNest hall) (triple_past (.inr rfl)
        ((triple_flatBreak (by decide)).imp fun _ _ hs => hs.level) (triple_last hclosing))
    | broken =>
      have hinner : 0 ≤ i + indentation := add_indentation_nonneg hi
      have hbroken : ∀ item ∈ items, Triple (alignment P) (i + indentation) .broken
          (Level P (i + indentation)) item Anywhere :=
        fun item hitem => (hitems item hitem (i + indentation) .broken hinner).anywhere
      have hcomma : Triple (alignment P) (i + indentation) .broken Anywhere comma
          (Level P (i + indentation)) :=
        triple_past (.inr rfl) (triple_lineless trivial) (triple_brokenBreak hinner)
      have hall : Triple (alignment P) (i + indentation) .broken (Inside P i)
          (softBreak ++ join comma items) Anywhere :=
        triple_past (.inl rfl) (triple_brokenBreak hinner)
          (triple_separated hne rfl (fun _ => rfl) hbroken hcomma)
      exact triple_past (.inr rfl) (triple_brokenNest hall)
        (triple_past (.inr rfl) (triple_brokenBreak hi) (triple_last hclosing))

theorem triple_wrapped {opening closing : String} {items : List Doc} (hi : 0 ≤ i)
    (hopening : Visible opening.toList) (hclosing : Visible closing.toList)
    (hitems : ∀ item ∈ items, KeepsLevel P item) :
    Triple (alignment P) i m (Level P i) (wrapped opening items closing) (Inside P i) :=
  triple_group (triple_enclosed hi hopening hclosing hitems) fun _ =>
    triple_enclosed hi hopening hclosing hitems

/-- Behind a function in broken mode the line may be indented further. -/
theorem keepsLevel_arrowDoc {params : List String} {body : Doc}
    (hparams : ∀ param ∈ params, Visible param.toList) (hbody : KeepsLevel P body) :
    KeepsLevel P (arrowDoc params body) := by
  intro i m hi
  have hdocs : ∀ param ∈ params.map text, KeepsLevel P param :=
    List.forall_mem_map.mpr fun param hparam i m _ =>
      (triple_visible (hparams param hparam)).imp fun _ _ hs => hs.mono And.left
  have hopening : Visible "(".toList := ⟨by decide, '(', _, rfl, by decide⟩
  have hclosing : Visible ")".toList := ⟨by decide, ')', _, rfl, by decide⟩
  have hmark : '\n' ∉ " =>".toList := by decide
  refine triple_group ?_ fun hm => ?_
  · have hspaced : Triple (alignment P) i .flat (Inside P i) (space ++ body) (Inside P i) :=
      triple_past (.inl rfl) ((triple_flatBreak (by decide)).imp fun _ _ hs => hs.level)
        ((hbody i .flat hi).imp fun _ _ hs => hs.mono fun hp => ⟨hp, rfl⟩)
    refine triple_past (.inr rfl) (triple_enclosed hi hopening hclosing hdocs)
      (triple_past (.inr rfl) (triple_further hmark) (triple_past (.inr rfl)
        (triple_flatNest hspaced) (triple_empty fun _ _ hs => ?_)))
    exact hs.mono And.left
  · have hinner : 0 ≤ i + indentation := add_indentation_nonneg hi
    have hspaced : Triple (alignment P) (i + indentation) .broken (Inside P i) (space ++ body)
        (Inside (P ∧ Mode.broken = .flat) (i + indentation)) :=
      triple_past (.inl rfl) (triple_brokenBreak hinner) (hbody (i + indentation) .broken hinner)
    refine triple_past (.inr rfl) (triple_enclosed hi hopening hclosing hdocs)
      (triple_past (.inr rfl) (triple_further hmark) (triple_past (.inr rfl)
        (triple_brokenNest hspaced) (triple_empty fun s c hs => ?_)))
    obtain ⟨hink, hmargin, -⟩ := hs
    unfold indentation at hmargin
    exact ⟨hink, by omega, fun h => absurd (hm.symm.trans h.2) nofun⟩

theorem triple_declaration {identifier : String} (h : '\n' ∉ identifier.toList) {value : Doc}
    (hi : 0 ≤ i) (hvalue : Triple (alignment P) i m (Level P i) value Anywhere) :
    Triple (alignment P) i m (LineStart i) (declaration identifier value) Anywhere := by
  have hopening : Visible ("let " ++ identifier ++ " = ").toList := by
    rw [String.toList_append, String.toList_append]
    exact ⟨by simp [h], 'l', _, rfl, by decide⟩
  have hlet : Triple (alignment P) i m (LineStart i) (text ("let " ++ identifier ++ " = "))
      (Level P i) :=
    triple_text fun _ _ hs => ((hs.level hi).visible hopening 0).level
  exact triple_past (.inr (isBlockRest_append_text ..)) hlet
    (triple_past (.inr rfl) hvalue (triple_lineless ⟨trivial, trivial⟩))

theorem triple_giving {value : Doc} (hi : 0 ≤ i)
    (hvalue : Triple (alignment P) i m (Level P i) value Anywhere) :
    Triple (alignment P) i m (LineStart i) (giving value) Anywhere := by
  have hopening : Visible "return ".toList := ⟨by decide, 'r', _, rfl, by decide⟩
  have hreturn : Triple (alignment P) i m (LineStart i) (text "return ") (Level P i) :=
    triple_text fun _ _ hs => ((hs.level hi).visible hopening 0).level
  exact triple_past (.inr (isBlockRest_append_text ..)) hreturn
    (triple_past (.inr rfl) hvalue (triple_lineless ⟨trivial, trivial⟩))

theorem triple_parenthesized (needed : Bool) {doc : Doc}
    (h : Triple (alignment P) i m (Level P i) doc (Inside Q i)) :
    Triple (alignment P) i m (Level P i) (parenthesized needed doc) (Inside Q i) := by
  unfold parenthesized
  split
  · have hopening : Visible "(".toList := ⟨by decide, '(', _, rfl, by decide⟩
    have hparen : Triple (alignment P) i m (Level P i) (text "(") (Level P i) :=
      triple_text fun _ _ hs => (hs.visible hopening 0).level
    have hclosing : '\n' ∉ ")".toList := by decide
    exact triple_past (.inr (isBlockRest_append_text ..)) hparen (triple_past (.inr rfl) h
      (triple_past (.inr rfl) (triple_further hclosing) (triple_empty fun _ _ hs => hs)))
  · exact h

end Formats

/-! ## Scripts -/

theorem visible_toString (n : Nat) : Visible (toString n).toList := by
  refine ⟨newline_notMem_toString n, ?_⟩
  obtain ⟨c, rest, hlist⟩ := List.exists_cons_of_ne_nil (Nat.toDigits_ne_nil (n := n) (b := 10))
  rw [Nat.toString_eq_ofList_toDigits, String.toList_ofList]
  refine ⟨c, rest, hlist, ?_⟩
  rintro rfl
  have hdigit := Nat.isDigit_of_mem_toDigits (b := 10) (by decide) (by decide)
    (hlist ▸ List.mem_cons_self)
  exact absurd hdigit (by decide)

theorem visible_literal (value : Literal) : Visible value.written.toList := by
  refine ⟨value.newline_notMem_written, ?_⟩
  cases value with
  | int n =>
    rw [Literal.written_int]
    split
    · exact (visible_toString _).2
    · exact ⟨'-', _, String.toList_append, by decide⟩
  | string value =>
    rw [Literal.written, stringLiteral, String.toList_ofList]
    exact ⟨'"', _, rfl, by decide⟩
  | bool value => cases value <;> exact ⟨_, _, rfl, by decide⟩

theorem visible_identifier {name : Text} (h : Name.isValid name = true) :
    Visible (Name.identifier name).toList := by
  refine ⟨Name.newline_notMem_identifier h, ?_⟩
  obtain ⟨c, rest, hlist⟩ := List.exists_cons_of_ne_nil (Name.shown_ne_empty h)
  have hink : c ≠ ' ' := by
    rintro rfl
    exact absurd (Name.isPart_of_mem_shown h ' ' (by simp [hlist])) (by decide)
  rcases Name.toList_identifier name with ⟨-, hname⟩ | ⟨-, hname⟩
  · exact ⟨c, rest, by rw [hname, hlist], hink⟩
  · exact ⟨c, rest ++ ['$'], by rw [hname, hlist]; rfl, hink⟩

theorem lineless_ref (ref : Ref String) : (ref.doc text).Lineless := by
  induction ref with
  | subject s => trivial
  | item list index ih => exact ⟨ih, trivial⟩
  | rest list start ih => exact ⟨ih, trivial⟩

theorem lineless_check (check : Check String) : (check.doc text).Lineless := by
  cases check with
  | length ref count atLeast =>
    exact ⟨trivial, lineless_ref ref, trivial, ⟨trivial, trivial⟩, lineless_ref ref, trivial,
      trivial, trivial, trivial⟩
  | equals ref literal => exact ⟨lineless_ref ref, trivial, trivial, trivial⟩

theorem newline_notMem_ref {ref : Ref String} (h : (ref.doc text).unbroken = true) :
    '\n' ∉ (ref.doc text).flatText.toList := by
  induction ref with
  | subject s => exact unbroken_text.mp h
  | item list index ih | rest list index ih =>
    rw [Ref.doc, append_eq, unbroken_append, unbroken_text] at h
    rw [Ref.doc, append_eq, flatText, String.toList_append]
    exact List.not_mem_append (ih h.1) h.2

theorem newline_notMem_check {check : Check String} (h : (check.doc text).unbroken = true) :
    '\n' ∉ (check.doc text).flatText.toList := by
  cases check with
  | length ref count atLeast =>
    have href : (ref.doc text).unbroken = true := by
      simp only [Check.doc, lengthTest, concat_cons, unbroken_append] at h
      exact h.2.1
    have hcount : '\n' ∉ (Int.repr count).toList := Literal.newline_notMem_written (.int count)
    cases atLeast <;>
      simp [Check.doc, lengthTest, conjunctionMark, flatText, space, newline_notMem_ref href,
        hcount]
  | equals ref literal =>
    have href : (ref.doc text).unbroken = true := by
      simp only [Check.doc, equalityTest, concat_cons, unbroken_append] at h
      exact h.1
    simp [Check.doc, equalityTest, flatText, newline_notMem_ref href,
      literal.newline_notMem_written]

variable {shadowing : Bool} {P : Prop}

theorem triple_clauseBody {m : Mode} {pattern : Pattern} {trail : Trail} {subject : String}
    {lowering : Lowering String} (lowered : pattern.lower shadowing trail subject = .ok lowering)
    {i : Int} (hi : 0 ≤ i) {bodyTerm : Term}
    (h : Triple (alignment P) i m (Level P i) bodyTerm.doc Anywhere) :
    ∀ doc ∈ Stmt.docs (declarations lowering ++ [.give bodyTerm]),
      Triple (alignment P) i m (LineStart i) doc Anywhere := by
  rw [forall_mem_docs_clauseBody]
  constructor
  · intro binding hbinding
    have hvalid : Name.isValid binding.name = true := isValid_of_mem_lower lowered hbinding
    exact triple_declaration (Name.newline_notMem_identifier hvalid) hi
      (triple_lineless (lineless_ref binding.ref))
  · exact triple_giving hi h

mutual

/-- Where the layout comes to a block, the line is indented at least as deep as the line that the
block will end on, and just as deep if nothing in the tree goes on behind the body of a function. -/
theorem triple_doc {trail : Trail} {e : Expr} {term : Term}
    (h : Yields oneSubject shadowing trail e term)
    (hP : P → ∀ s ∈ e.subexprs, s.continuesFunction = false) {i : Int} (hi : 0 ≤ i) (m : Mode) :
    Triple (alignment P) i m (Level P i) term.doc
      (Inside (P ∧ (m = .flat ∨ e.endsInFunction = false)) i) := by
  cases h with
  | literal trail value =>
    exact (triple_visible (visible_literal value)).imp fun _ _ hs => hs.mono And.left
  | var trail valid =>
    exact (triple_visible (visible_identifier valid)).imp fun _ _ hs => hs.mono And.left
  | list hitems =>
    rename_i items terms
    rw [Expr.subexprs] at hP
    have hdocs : ∀ doc ∈ Term.docs terms, KeepsLevel P doc :=
      keepsLevel_docs hitems fun hp => (List.forall_mem_cons.mp (hP hp)).2
    have hopening : Visible "[".toList := ⟨by decide, '[', _, rfl, by decide⟩
    have hclosing : Visible "]".toList := ⟨by decide, ']', _, rfl, by decide⟩
    exact (triple_wrapped hi hopening hclosing hdocs).imp fun _ _ hs => hs.mono And.left
  | binop hleft valid hright =>
    rename_i op left right leftTerm rightTerm
    simp only [Expr.subexprs, List.forall_mem_cons, List.forall_mem_append] at hP
    have hleftDoc : Triple (alignment P) i m (Level P i) leftTerm.doc (Inside P i) :=
      (triple_doc hleft (fun hp => (hP hp).2.1) hi m).imp fun _ _ hs =>
        hs.mono fun hp => ⟨hp, .inr (hP hp).1⟩
    have hop : '\n' ∉ (" " ++ op.shown ++ " ").toList := by
      simp [newline_notMem_operator valid]
    have hmark : Triple (alignment P) i m (Inside P i) (text (" " ++ op.shown ++ " "))
        (Level P i) := (triple_further hop).imp fun _ _ hs => hs.level
    have hrightDoc := triple_doc hright (fun hp => (hP hp).2.2) hi m
    exact triple_past (.inr rfl) hleftDoc (triple_past (.inr (isBlockRest_append_empty _)) hmark
      (triple_past (.inr rfl) hrightDoc (triple_empty fun _ _ hs => hs)))
  | letIn valid hvalue hbody =>
    simp only [Expr.subexprs, List.forall_mem_cons, List.forall_mem_append] at hP
    have hinner := add_indentation_nonneg hi
    refine (triple_immediate hi ?_).imp fun _ _ hs => hs.mono And.left
    simp only [Stmt.docs, Stmt.doc, List.forall_mem_cons]
    refine ⟨?_, ?_, by simp⟩
    · exact triple_declaration (Name.newline_notMem_identifier valid) hinner
        (triple_doc hvalue (fun hp => (hP hp).2.1) hinner m).anywhere
    · exact triple_giving hinner (triple_doc hbody (fun hp => (hP hp).2.2) hinner m).anywhere
  | apply hfunction hargs =>
    rename_i function args functionTerm argTerms
    simp only [Expr.subexprs, List.forall_mem_cons, List.forall_mem_append] at hP
    have hdocs : ∀ doc ∈ Term.docs argTerms, KeepsLevel P doc :=
      keepsLevel_docs hargs fun hp => (hP hp).2.2
    have hfunctionDoc : Triple (alignment P) i m (Level P i)
        (parenthesized functionTerm.needsParens functionTerm.doc) (Level P i) :=
      (triple_parenthesized _ (triple_doc hfunction (fun hp => (hP hp).2.1) hi m)).imp
        fun _ _ hs => (hs.mono fun hp => ⟨hp, .inr (hP hp).1⟩).level
    have hopening : Visible "(".toList := ⟨by decide, '(', _, rfl, by decide⟩
    have hclosing : Visible ")".toList := ⟨by decide, ')', _, rfl, by decide⟩
    exact triple_past (.inr rfl) hfunctionDoc
      ((triple_wrapped hi hopening hclosing hdocs).imp fun _ _ hs => hs.mono And.left)
  | lambda valid distinct hbody =>
    rename_i params body bodyTerm
    rw [Expr.subexprs] at hP
    have hbodyDoc : KeepsLevel P bodyTerm.doc := fun i m hi =>
      (triple_doc hbody (fun hp => (List.forall_mem_cons.mp (hP hp)).2) hi m).imp
        fun _ _ hs => hs.mono fun hp => ⟨hp.1, .inl hp.2⟩
    have hparams : ∀ param ∈ params.map Name.identifier, Visible param.toList :=
      List.forall_mem_map.mpr fun name hname => visible_identifier (valid name hname)
    exact (keepsLevel_arrowDoc hparams hbodyDoc i m hi).imp fun _ _ hs =>
      hs.mono fun hp => ⟨hp.1, hp.2.resolve_right nofun⟩
  | cases hsubject hclauses =>
    simp only [Expr.subexprs, List.forall_mem_cons, List.forall_mem_append] at hP
    have hinner := add_indentation_nonneg hi
    refine (triple_immediate hi ?_).imp fun _ _ hs => hs.mono And.left
    simp only [Stmt.docs, Stmt.doc, List.forall_mem_cons]
    refine ⟨?_, triple_stmtDocs hclauses (fun hp => (hP hp).2.2) hinner m⟩
    have hname : '\n' ∉ Name.subject.toList := by decide
    exact triple_declaration hname hinner
      (triple_doc hsubject (fun hp => (hP hp).2.1) hinner m).anywhere

theorem keepsLevel_docs {trail : Trail} {index : Nat} {items : List Expr} {terms : List Term}
    (h : YieldsItems oneSubject shadowing trail index items terms)
    (hP : P → ∀ s ∈ Expr.itemSubexprs items, s.continuesFunction = false) :
    ∀ doc ∈ Term.docs terms, KeepsLevel P doc := by
  cases h with
  | nil trail index => exact List.forall_mem_nil _
  | cons hitem hrest =>
    simp only [Expr.itemSubexprs, List.forall_mem_append] at hP
    rw [Term.docs, List.forall_mem_cons]
    refine ⟨fun i m hi => ?_, keepsLevel_docs hrest fun hp => (hP hp).2⟩
    exact (triple_doc hitem (fun hp => (hP hp).1) hi m).imp
      fun _ _ hs => hs.mono fun hp => ⟨hp.1, .inl hp.2⟩

theorem triple_stmtDocs {trail : Trail} {index : Nat} {clauses : List Clause}
    {stmts : List Stmt} (h : YieldsClauses oneSubject shadowing trail index clauses stmts)
    (hP : P → ∀ s ∈ Expr.clauseSubexprs clauses, s.continuesFunction = false) {i : Int} (hi : 0 ≤ i)
    (m : Mode) :
    ∀ doc ∈ Stmt.docs stmts, Triple (alignment P) i m (LineStart i) doc Anywhere := by
  cases h with
  | failing trail index =>
    simp only [Stmt.docs, Stmt.doc, List.forall_mem_singleton]
    exact triple_lineless trivial
  | catchAll rest lowered total hbody =>
    rw [isCatchAll_lower lowered] at total
    simp only [Expr.clauseSubexprs, total, if_true, List.append_nil] at hP
    exact triple_clauseBody lowered hi (triple_doc hbody hP hi m).anywhere
  | guarded lowered partial_checks hbody hrest =>
    rw [isCatchAll_lower lowered] at partial_checks
    simp only [Expr.clauseSubexprs, partial_checks, Bool.false_eq_true, if_false,
      List.forall_mem_append] at hP
    have hinner := add_indentation_nonneg hi
    rw [Stmt.docs, Stmt.doc, List.forall_mem_cons]
    refine ⟨?_, triple_stmtDocs hrest (fun hp => (hP hp).2) hi m⟩
    refine triple_conditional hi ?_
      (triple_clauseBody lowered hinner (triple_doc hbody (fun hp => (hP hp).1) hinner m).anywhere)
    have hsubject : '\n' ∉ Name.subject.toList := by decide
    exact List.forall_mem_map.mpr fun check hcheck =>
      ⟨lineless_check check, newline_notMem_check (unbroken_checks hsubject lowered check hcheck)⟩

end

/-- The layout of a script comes to its blocks and conditions only as noted. -/
theorem alignment_of_met {trail : Trail} {e : Expr} {term : Term}
    (h : Yields oneSubject shadowing trail e term) {width : Int} {first second : Doc} {p : Progress}
    {i : Int} {m : Mode} {rest : List Pending}
    (hmet : Met width term.doc (append first second) p i m rest) :
    alignment (∀ s ∈ e.subexprs, s.continuesFunction = false) first second i m p.written p.column :=
  hmet.noted (triple_doc h (fun hp => hp) (Int.le_refl 0) .broken)
    ⟨Int.natCast_nonneg _, fun _ => rfl⟩

end Script
end CaseScript
