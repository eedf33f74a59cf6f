import CaseScript.Diagnostic.Report
import CaseScript.Proofs.Text.Ansi

/-!
# Reports with and without colours

The colours of a report are escape sequences around some of its texts. When all sequences are left
out, a report with colours and the same report without them become alike, whatever their texts hold.
-/

namespace CaseScript

open Text

/-! ## Texts without escapes -/

/-- Is a text free of the character that begins all escape sequences? -/
def Text.IsEscapeFree (s : String) : Prop := escapeChar ∉ s.toList

instance (s : String) : Decidable (IsEscapeFree s) :=
  inferInstanceAs (Decidable (escapeChar ∉ s.toList))

/-- Are all texts of a diagnostic that a report shows free of escapes? -/
structure Diagnostic.IsEscapeFree (d : Diagnostic) : Prop where
  code : Text.IsEscapeFree d.code
  message : Text.IsEscapeFree d.message
  labels : ∀ label ∈ d.labels,
    Text.IsEscapeFree label.trail.written ∧ Text.IsEscapeFree label.message
  suggestions : ∀ suggestion ∈ d.suggestions, Text.IsEscapeFree suggestion.replacement
  notes : ∀ note ∈ d.notes, Text.IsEscapeFree note

theorem Text.IsEscapeFree.append {s t : String} (hs : IsEscapeFree s) (ht : IsEscapeFree t) :
    IsEscapeFree (s ++ t) := by
  unfold IsEscapeFree
  rw [String.toList_append, List.mem_append, not_or]
  exact ⟨hs, ht⟩

theorem Text.isEscapeFree_intercalate {separator : String} {texts : List String}
    (hseparator : IsEscapeFree separator) (htexts : ∀ t ∈ texts, IsEscapeFree t) :
    IsEscapeFree (separator.intercalate texts) := by
  induction texts with
  | nil => exact List.not_mem_nil
  | cons t texts ih =>
    rw [List.forall_mem_cons] at htexts
    cases texts with
    | nil =>
      rw [String.intercalate_singleton]
      exact htexts.1
    | cons next texts =>
      rw [String.intercalate_cons_cons]
      exact (htexts.1.append hseparator).append (ih htexts.2)

namespace Report

/-! ## Spans -/

/-- Does a form take in the sequences of all styles, and does no sequence of the form reach from one
text of a report over the next bracket, sequence or line end? -/
structure CoversStyles (form : EscapeForm) : Prop where
  apart : form.IsApart
  code : ∀ style : Style, IsSequence form style.code.toList
  reset : IsSequence form Style.reset.toList
  escape : form.IsForeign escapeChar
  newline : form.IsForeign '\n'
  bracket : form.IsClosing ']'

theorem coversStyles_letterSequence : CoversStyles letterSequence where
  apart := isApart_letterSequence
  code style := isSequence_of_afterEscape? (by rcases style with _ | _ | _ | _ | _ <;> rfl)
  reset := isSequence_of_afterEscape? rfl
  escape := ⟨by decide, by decide, by decide, by decide⟩
  newline := ⟨by decide, by decide, by decide, by decide⟩
  bracket := ⟨by decide, by decide, by decide, by decide⟩

theorem coversStyles_controlSequence : CoversStyles controlSequence where
  apart := isApart_controlSequence
  code style := isSequence_of_afterEscape? (by rcases style with _ | _ | _ | _ | _ <;> rfl)
  reset := isSequence_of_afterEscape? rfl
  escape := ⟨by decide, by decide, by decide, by decide⟩
  newline := ⟨by decide, by decide, by decide, by decide⟩
  bracket := ⟨by decide, by decide, by decide, by decide⟩

/-- Can the sequences of a text be left out before another text is joined to it? -/
def IsSettled (form : EscapeForm) (s : String) : Prop :=
  ∀ rest, stripEscapes form (s.toList ++ rest) =
    stripEscapes form s.toList ++ stripEscapes form rest

variable {form : EscapeForm}

theorem isSettled_of_isEscapeFree (hform : CoversStyles form) {s : String} (h : IsEscapeFree s) :
    IsSettled form s :=
  fun _ => stripEscapes_append hform.apart (isParted_of_notMem h)

theorem isSettled_bracket (hform : CoversStyles form) (s : String) : IsSettled form (s ++ "]") := by
  intro rest
  have hclose : "]".toList = [']'] := rfl
  rw [String.toList_append, hclose]
  exact stripEscapes_append hform.apart (isParted_snoc hform.bracket)

/-- A style adds nothing but its two sequences, which part its text from the next one. -/
theorem stripEscapes_styled (hform : CoversStyles form) (style : Style) (text : String)
    (rest : List Char) :
    stripEscapes form (((Span.styled style text).written true).toList ++ rest) =
      stripEscapes form text.toList ++ stripEscapes form rest := by
  have hwritten : (Span.styled style text).written true = style.code ++ text ++ Style.reset := rfl
  obtain ⟨tail, htail⟩ := hform.reset.exists_cons
  have hparted : IsParted form text.toList (Style.reset.toList ++ rest) := by
    rw [htail, List.cons_append]
    exact isParted_cons hform.escape
  rw [hwritten, String.toList_append, String.toList_append, List.append_assoc, List.append_assoc,
    stripEscapes_append_of_isSequence hform.apart (hform.code style),
    stripEscapes_append hform.apart hparted,
    stripEscapes_append_of_isSequence hform.apart hform.reset]

theorem stripEscapes_span (hform : CoversStyles form) {span : Span}
    (h : IsSettled form span.text) (rest : List Char) :
    stripEscapes form ((span.written true).toList ++ rest) =
      stripEscapes form span.text.toList ++ stripEscapes form rest := by
  rcases span with ⟨_ | style, text⟩
  · exact h rest
  · exact stripEscapes_styled hform style text rest

/-- At the end of a line a text needs not be settled. -/
theorem stripEscapes_lastSpan (hform : CoversStyles form) (span : Span) :
    stripEscapes form (span.written true).toList = stripEscapes form span.text.toList := by
  rcases span with ⟨_ | style, text⟩
  · rfl
  · have hstyled := stripEscapes_styled hform style text []
    rw [List.append_nil, stripEscapes_nil, List.append_nil] at hstyled
    exact hstyled

/-! ## Lines -/

theorem toList_writtenLine_cons (color : Bool) (span : Span) (spans : List Span) :
    (writtenLine color (span :: spans)).toList =
      (span.written color).toList ++ (writtenLine color spans).toList := by
  rw [writtenLine, List.map_cons, String.join_cons, String.toList_append, writtenLine]

theorem stripEscapes_writtenLine (hform : CoversStyles form) {spans : List Span}
    (h : ∀ span ∈ spans.dropLast, IsSettled form span.text) :
    stripEscapes form (writtenLine true spans).toList =
      stripEscapes form (writtenLine false spans).toList := by
  induction spans with
  | nil => rfl
  | cons span rest ih =>
    rw [toList_writtenLine_cons, toList_writtenLine_cons, Span.written_without_color]
    cases rest with
    | nil =>
      have hend : ∀ color, (writtenLine color []).toList = [] := fun _ => rfl
      rw [hend, hend, List.append_nil, List.append_nil, stripEscapes_lastSpan hform]
    | cons next rest =>
      rw [List.dropLast_cons_cons, List.forall_mem_cons] at h
      rw [stripEscapes_span hform h.1, h.1, ih h.2]

/-- A line of a report is its header, or else it is made of fixed texts and one more text, which
tells of the diagnostic. -/
theorem exists_text_of_mem_lines {fileName : String} {d : Diagnostic} :
    ∀ line ∈ lines fileName d, line = header d ∨ ∃ fixed last, line = fixed ++ [last] ∧
      (∀ span ∈ fixed, IsEscapeFree span.text) ∧
      (IsEscapeFree fileName → d.IsEscapeFree → IsEscapeFree last.text) := by
  intro line hline
  rw [lines, List.mem_append, List.mem_append, List.mem_cons] at hline
  rcases hline with ((rfl | hlabels) | hnotes) | hsuggestions
  · exact .inl rfl
  · right
    obtain ⟨label, hlabel, hline⟩ := List.mem_flatMap.mp hlabels
    rw [labelLines, List.mem_cons] at hline
    rcases hline with rfl | hline
    · refine ⟨[.plain "  ", .styled .frame "-->"], _, rfl, by decide, fun hfile h => ?_⟩
      have hplace : IsEscapeFree (" " ++ fileName ++ "#") :=
        (IsEscapeFree.append (by decide) hfile).append (by decide)
      exact hplace.append (h.labels label hlabel).1
    · split at hline
      · cases hline
      · obtain rfl := List.mem_singleton.mp hline
        exact ⟨[.plain "  ", .styled .frame "   |", .plain "   "], _, rfl, by decide,
          fun _ h => (h.labels label hlabel).2⟩
  · right
    obtain ⟨note, hnote, rfl⟩ := List.mem_map.mp hnotes
    exact ⟨[.plain "  ", .styled .frame "="], _, rfl, by decide,
      fun _ h => .append (by decide) (h.notes note hnote)⟩
  · right
    obtain ⟨suggestion, hsuggestion, rfl⟩ := List.mem_map.mp hsuggestions
    exact ⟨[.plain "  ", .styled .frame "try:"], _, rfl, by decide,
      fun _ h => .append (by decide) (h.suggestions suggestion hsuggestion)⟩

theorem isSettled_of_mem_lines (hform : CoversStyles form) {fileName : String} {d : Diagnostic} :
    ∀ line ∈ lines fileName d, ∀ span ∈ line.dropLast, IsSettled form span.text := by
  intro line hline
  rcases exists_text_of_mem_lines line hline with rfl | ⟨fixed, last, rfl, hfixed, -⟩
  · rw [header, List.dropLast_cons_cons, List.dropLast_singleton, List.forall_mem_singleton]
    exact isSettled_bracket hform _
  · rw [List.dropLast_concat]
    exact fun span hspan => isSettled_of_isEscapeFree hform (hfixed span hspan)

theorem isEscapeFree_of_mem_lines {fileName : String} {d : Diagnostic}
    (hfile : IsEscapeFree fileName) (h : d.IsEscapeFree) :
    ∀ line ∈ lines fileName d, ∀ span ∈ line, IsEscapeFree span.text := by
  intro line hline
  rcases exists_text_of_mem_lines line hline with rfl | ⟨fixed, last, rfl, hfixed, hlast⟩
  · have hname : IsEscapeFree (d.severity.name ++ "[") := by cases d.severity <;> decide
    rw [header, List.forall_mem_cons, List.forall_mem_singleton]
    exact ⟨(hname.append h.code).append (by decide), .append (by decide) h.message⟩
  · rw [List.forall_mem_append, List.forall_mem_singleton]
    exact ⟨hfixed, hlast hfile h⟩

/-! ## Reports -/

theorem stripEscapes_newline (hform : CoversStyles form) (s rest : List Char) :
    stripEscapes form (s ++ '\n' :: rest) =
      stripEscapes form s ++ '\n' :: stripEscapes form rest := by
  rw [stripEscapes_append hform.apart (isParted_cons hform.newline),
    stripEscapes_cons_of_ne (by decide)]

theorem stripEscapes_intercalate (hform : CoversStyles form) {lines : List (List Span)}
    (h : ∀ line ∈ lines, ∀ span ∈ line.dropLast, IsSettled form span.text) :
    stripEscapes form ("\n".intercalate (lines.map (writtenLine true))).toList =
      stripEscapes form ("\n".intercalate (lines.map (writtenLine false))).toList := by
  induction lines with
  | nil => rfl
  | cons line rest ih =>
    rw [List.forall_mem_cons] at h
    have hline := stripEscapes_writtenLine hform h.1
    cases rest with
    | nil =>
      rw [List.map_singleton, List.map_singleton, String.intercalate_singleton,
        String.intercalate_singleton, hline]
    | cons next rest =>
      have hend : "\n".toList = ['\n'] := rfl
      have hwritten : ∀ color,
          ("\n".intercalate ((line :: next :: rest).map (writtenLine color))).toList =
            (writtenLine color line).toList ++
              '\n' :: ("\n".intercalate ((next :: rest).map (writtenLine color))).toList := by
        intro color
        rw [List.map_cons, List.map_cons, String.intercalate_cons_cons, ← List.map_cons,
          String.toList_append, String.toList_append, hend, List.append_assoc,
          List.singleton_append]
      rw [hwritten, hwritten, stripEscapes_newline hform, stripEscapes_newline hform, hline,
        ih h.2]

/-- This holds of all reports: a text that ends within a sequence is followed by a line end or a
bracket, with colours and without them, and neither goes on with the sequence. -/
theorem stripEscapes_report (hform : CoversStyles form) (fileName : String) (d : Diagnostic) :
    stripEscapes form (d.report true fileName).toList =
      stripEscapes form (d.report false fileName).toList :=
  stripEscapes_intercalate hform (isSettled_of_mem_lines hform)

theorem isEscapeFree_writtenLine {spans : List Span}
    (h : ∀ span ∈ spans, IsEscapeFree span.text) : IsEscapeFree (writtenLine false spans) := by
  induction spans with
  | nil => exact List.not_mem_nil
  | cons span rest ih =>
    rw [List.forall_mem_cons] at h
    have hrest := ih h.2
    unfold IsEscapeFree at hrest ⊢
    rw [toList_writtenLine_cons, Span.written_without_color, List.mem_append, not_or]
    exact ⟨h.1, hrest⟩

theorem isEscapeFree_report {fileName : String} {d : Diagnostic} (hfile : IsEscapeFree fileName)
    (h : d.IsEscapeFree) : IsEscapeFree (d.report false fileName) := by
  refine isEscapeFree_intercalate (by decide) ?_
  rw [List.forall_mem_map]
  exact fun line hline => isEscapeFree_writtenLine (isEscapeFree_of_mem_lines hfile h line hline)

end Report
end CaseScript
