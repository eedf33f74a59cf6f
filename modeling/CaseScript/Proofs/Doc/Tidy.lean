import CaseScript.Proofs.Doc.Progress
import CaseScript.Proofs.Doc.Steady
import CaseScript.Proofs.Text.Reading

/-!
# Tidy layouts

A text is tidy if each of its newlines stands right behind a visible character; then no line that
ends in a newline is empty or ends in a space. A document is judged by what it makes of a tidy text
before it, in whatever way it is written.
-/

namespace CaseScript

namespace Text

variable {s t : List Char}

/-- Does a text end in a character that is neither a space nor a newline? -/
def EndsVisibly (s : List Char) : Prop := ∃ c, s.getLast? = some c ∧ isSpacing c = false

theorem endsVisibly_iff : s.getLast?.any (!isSpacing ·) = true ↔ EndsVisibly s := by
  simp [EndsVisibly, Option.any_eq_true]

instance (s : List Char) : Decidable (EndsVisibly s) := decidable_of_iff _ endsVisibly_iff

/-- Is a text on one line, with a visible end? -/
abbrev Solid (s : List Char) : Prop := '\n' ∉ s ∧ EndsVisibly s

def Tidy (s : List Char) : Prop :=
  ∀ before after, s = before ++ '\n' :: after → EndsVisibly before

theorem not_endsVisibly_nil : ¬ EndsVisibly [] := by
  rintro ⟨c, hlast, -⟩
  cases hlast

theorem not_endsVisibly_newline (s : List Char) : ¬ EndsVisibly (s ++ ['\n']) := by
  rintro ⟨c, hlast, hc⟩
  rw [List.getLast?_concat] at hlast
  cases hlast
  exact absurd hc (by decide)

theorem EndsVisibly.append (h : EndsVisibly t) (s : List Char) : EndsVisibly (s ++ t) := by
  obtain ⟨c, hlast, hc⟩ := h
  refine ⟨c, ?_, hc⟩
  rw [List.getLast?_append, hlast]
  rfl

theorem Solid.append (h : Solid t) (hs : '\n' ∉ s) : Solid (s ++ t) :=
  ⟨by simp [hs, h.1], h.2.append s⟩

theorem EndsVisibly.of_append (h : EndsVisibly (s ++ t)) (hs : ¬ EndsVisibly s) :
    EndsVisibly t := by
  obtain ⟨c, hlast, hc⟩ := h
  rw [List.getLast?_append] at hlast
  cases ht : t.getLast? with
  | none =>
    rw [ht] at hlast
    exact absurd ⟨c, hlast, hc⟩ hs
  | some last =>
    rw [ht] at hlast
    cases hlast
    exact ⟨c, ht, hc⟩

theorem tidy_nil : Tidy [] := by
  intro before after h
  cases before <;> cases h

theorem Tidy.snoc {c : Char} (h : Tidy s) (hc : c = '\n' → EndsVisibly s) : Tidy (s ++ [c]) := by
  intro before after heq
  rcases cut_snoc heq with ⟨front, hs⟩ | ⟨rfl, rfl⟩
  · exact h before front hs
  · exact hc rfl

theorem Tidy.append (h : Tidy s) (ht : '\n' ∉ t) : Tidy (s ++ t) := by
  induction t generalizing s with
  | nil =>
    rw [List.append_nil]
    exact h
  | cons c rest ih =>
    rw [List.mem_cons, not_or] at ht
    rw [List.append_cons]
    apply ih _ ht.2
    exact h.snoc fun hc => absurd hc.symm ht.1

theorem Tidy.newline (h : Tidy s) (hs : EndsVisibly s) (i : Int) : Tidy (s ++ Doc.newline i) := by
  rw [Doc.newline, List.append_cons]
  apply (h.snoc fun _ => hs).append
  intro hmem
  exact absurd (List.eq_of_mem_replicate hmem) (by decide)

/-- Behind the start of a text, which ends in a newline if it is not empty, all lines end
visibly. -/
theorem endsVisibly_of_mem_lines {lines : List (List Char)} (hs : ¬ EndsVisibly s)
    (htidy : Tidy (s ++ ['\n'].intercalate lines))
    (hend : EndsVisibly (s ++ ['\n'].intercalate lines)) :
    ∀ line ∈ lines, EndsVisibly line := by
  induction lines generalizing s with
  | nil => exact fun _ h => absurd h List.not_mem_nil
  | cons first rest ih =>
    rw [List.forall_mem_cons]
    by_cases hrest : rest = []
    · subst hrest
      rw [List.intercalate_singleton] at hend
      exact ⟨hend.of_append hs, fun _ h => absurd h List.not_mem_nil⟩
    · have hsplit : s ++ ['\n'].intercalate (first :: rest) =
          (s ++ first ++ ['\n']) ++ ['\n'].intercalate rest := by
        rw [List.intercalate_cons_of_ne_nil hrest]
        simp only [List.append_assoc]
      have hfirst : EndsVisibly (s ++ first) := by
        apply htidy (s ++ first) (['\n'].intercalate rest)
        rw [hsplit, List.append_assoc]
        rfl
      rw [hsplit] at htidy hend
      exact ⟨hfirst.of_append hs, ih (not_endsVisibly_newline _) htidy hend⟩

theorem Tidy.endsVisibly_line (h : Tidy s) (hend : EndsVisibly s) :
    ∀ line ∈ s.splitOn '\n', EndsVisibly line := by
  have hlines : ['\n'].intercalate (s.splitOn '\n') = s := List.intercalate_splitOn '\n'
  apply endsVisibly_of_mem_lines not_endsVisibly_nil
  · rw [hlines]
    exact h
  · rw [hlines]
    exact hend

/-- Behind a space in a tidy text, the text goes on, and not with a newline. -/
theorem Tidy.exists_next {after : List Char} (h : Tidy (s ++ ' ' :: after))
    (hend : EndsVisibly (s ++ ' ' :: after)) : ∃ c rest, after = c :: rest ∧ c ≠ '\n' := by
  have hspace : ¬ EndsVisibly (s ++ [' ']) := by
    rintro ⟨c, hlast, hc⟩
    rw [List.getLast?_concat] at hlast
    cases hlast
    exact absurd hc (by decide)
  cases after with
  | nil => exact absurd hend hspace
  | cons c rest =>
    refine ⟨c, rest, rfl, ?_⟩
    rintro rfl
    exact hspace (h (s ++ [' ']) rest (List.append_cons ..))

end Text

namespace Doc

open Text

/-- What is known of a text. -/
abbrev Knowledge := List Char → Prop

/-- Nothing is known. -/
def Unknown : Knowledge := fun _ => True

/-- In whatever way the document is written behind a tidy text as in `before`, the text stays tidy
and is then as in `after`. -/
def Tidies (before : Knowledge) (doc : Doc) (after : Knowledge) : Prop :=
  ∀ s t, Tidy s → before s → doc.Allows t → Tidy (s ++ t) ∧ after (s ++ t)

/-- Is a document tidy wherever it stands, and visible at its end? -/
def IsTidy (doc : Doc) : Prop := doc.Tidies Unknown EndsVisibly

section Rules

variable {before between after : Knowledge} {first second doc : Doc}

theorem IsTidy.tidies (h : doc.IsTidy) : doc.Tidies before EndsVisibly :=
  fun s t hs _ ht => h s t hs trivial ht

theorem tidies_empty : Tidies before empty before := by
  rintro s t hs hbefore rfl
  rw [List.append_nil]
  exact ⟨hs, hbefore⟩

theorem tidies_text {t : String} (h : '\n' ∉ t.toList) : Tidies before (text t) Unknown := by
  rintro s _ hs - rfl
  exact ⟨hs.append h, trivial⟩

theorem isTidy_text {t : String} (h : Solid t.toList) : (text t).IsTidy := by
  rintro s _ hs - rfl
  exact ⟨hs.append h.1, h.2.append s⟩

theorem tidies_line : Tidies EndsVisibly line Unknown := by
  rintro s _ hs hlast ⟨i, rfl⟩
  exact ⟨hs.newline hlast i, trivial⟩

/-- A break must not leave a space at the end of a line. -/
theorem tidies_brk {flat broken : String} (hflat : '\n' ∉ flat.toList)
    (hbroken : '\n' ∉ broken.toList)
    (hkeeps : ∀ s, EndsVisibly s → EndsVisibly (s ++ broken.toList)) :
    Tidies EndsVisibly (brk flat broken) Unknown := by
  rintro s _ hs hlast (rfl | ⟨i, rfl⟩)
  · exact ⟨hs.append hflat, trivial⟩
  · rw [← List.append_assoc]
    exact ⟨(hs.append hbroken).newline (hkeeps s hlast) i, trivial⟩

theorem tidies_append (hfirst : Tidies before first between)
    (hsecond : Tidies between second after) :
    Tidies before (append first second) after := by
  rintro s _ hs hbefore ⟨front, back, hfront, hback, rfl⟩
  obtain ⟨htidy, hbetween⟩ := hfirst s front hs hbefore hfront
  rw [← List.append_assoc]
  exact hsecond (s ++ front) back htidy hbetween hback

/-- A last document, with the end of the list behind it. -/
theorem tidies_last (h : Tidies before doc after) : Tidies before (append doc empty) after :=
  tidies_append h tidies_empty

theorem tidies_join {separator : Doc} {docs : List Doc}
    (hseparator : Tidies EndsVisibly separator Unknown) (hne : docs ≠ [])
    (h : ∀ doc ∈ docs, doc.IsTidy) : (join separator docs).IsTidy := by
  induction docs with
  | nil => exact absurd rfl hne
  | cons doc rest ih =>
    rw [List.forall_mem_cons] at h
    cases rest with
    | nil => exact tidies_last h.1
    | cons next rest =>
      exact tidies_append h.1 (tidies_append hseparator (ih (List.cons_ne_nil next rest) h.2))

end Rules

theorem tidies_softBreak : Tidies EndsVisibly softBreak Unknown := by
  apply tidies_brk (by decide) (by decide)
  intro s hs
  rw [String.toList_empty, List.append_nil]
  exact hs

theorem tidies_space : Tidies EndsVisibly space Unknown := by
  apply tidies_brk (by decide) (by decide)
  intro s hs
  rw [String.toList_empty, List.append_nil]
  exact hs

theorem IsTidy.render {doc : Doc} (h : doc.IsTidy) (width : Int) :
    Tidy (doc.render width).toList ∧ EndsVisibly (doc.render width).toList :=
  h [] _ tidy_nil trivial (allows_render width doc)

/-- Where a layout comes to a text that ends in a space, it goes on in the same line behind it. -/
theorem IsTidy.goes_on {doc : Doc} (h : doc.IsTidy) {width : Int} {t : String} {p : Progress}
    {i : Int} {m : Mode} {rest : List Pending} (hmet : Met width doc (text t) p i m rest)
    (ht : t.toList.getLast? = some ' ') :
    ∃ c after, c ≠ '\n' ∧ (doc.render width).toList = p.written ++ t.toList ++ c :: after := by
  obtain ⟨front, hfront⟩ := List.getLast?_eq_some_iff.mp ht
  obtain ⟨htidy, hend⟩ := h.render width
  have hrender := hmet.render_eq
  rw [arrange] at hrender
  have hsplit : ∀ after, p.written ++ t.toList ++ after = (p.written ++ front) ++ ' ' :: after := by
    intro after
    rw [hfront]
    simp only [List.append_assoc, List.cons_append, List.nil_append]
  rw [hrender, hsplit] at htidy hend
  obtain ⟨c, after, hafter, hc⟩ := htidy.exists_next hend
  refine ⟨c, after, hc, ?_⟩
  rw [hrender, hafter]

end Doc

end CaseScript
