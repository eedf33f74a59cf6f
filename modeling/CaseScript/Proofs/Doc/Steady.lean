import CaseScript.Proofs.Doc.FlatText
import CaseScript.Proofs.Doc.Variants

/-!
# Documents that only move their text

A document is steady if it says the same in whatever way it is written, apart from spaces, newlines
and commas right before closing brackets.
-/

namespace CaseScript

namespace Text

def isSpacing (c : Char) : Bool := c == ' ' || c == '\n'

def unspaced (s : List Char) : List Char := s.filter fun c => !isSpacing c

def isClosing (c : Char) : Bool := c == ']' || c == ')'

theorem isClosing_iff {c : Char} : isClosing c = true ↔ c = ']' ∨ c = ')' := by
  simp [isClosing]

/-- The characters without each comma that stands right before a closing bracket. -/
def withoutLastCommas : List Char → List Char
  | [] => []
  | c :: rest =>
    if c = ',' ∧ rest.head?.any isClosing then withoutLastCommas rest
    else c :: withoutLastCommas rest

def tightened (s : String) : List Char := withoutLastCommas (unspaced s.toList)

@[simp] theorem unspaced_append (s t : List Char) : unspaced (s ++ t) = unspaced s ++ unspaced t :=
  List.filter_append ..

/-- Can two texts stand for each other, whatever comes before and behind them? -/
def Interchangeable (s t : List Char) : Prop :=
  ∀ after, (s ++ after).head? = (t ++ after).head? ∧
    withoutLastCommas (s ++ after) = withoutLastCommas (t ++ after)

theorem Interchangeable.refl (s : List Char) : Interchangeable s s := fun _ => ⟨rfl, rfl⟩

theorem Interchangeable.trans {s t u : List Char} (hst : Interchangeable s t)
    (htu : Interchangeable t u) : Interchangeable s u := fun after =>
  ⟨(hst after).1.trans (htu after).1, (hst after).2.trans (htu after).2⟩

theorem Interchangeable.append_right {s t : List Char} (h : Interchangeable s t) (u : List Char) :
    Interchangeable (s ++ u) (t ++ u) := by
  intro after
  rw [List.append_assoc, List.append_assoc]
  exact h (u ++ after)

/-- Whether a comma is kept depends on the next character alone. -/
theorem Interchangeable.cons {s t : List Char} (h : Interchangeable s t) (c : Char) :
    Interchangeable (c :: s) (c :: t) := by
  intro after
  obtain ⟨hhead, hrest⟩ := h after
  refine ⟨rfl, ?_⟩
  rw [List.cons_append, List.cons_append, withoutLastCommas, withoutLastCommas, hhead, hrest]

theorem Interchangeable.append_left {s t : List Char} (h : Interchangeable s t) (u : List Char) :
    Interchangeable (u ++ s) (u ++ t) := by
  induction u with
  | nil => exact h
  | cons c u ih => exact ih.cons c

theorem Interchangeable.append {s t s' t' : List Char} (h : Interchangeable s t)
    (h' : Interchangeable s' t') : Interchangeable (s ++ s') (t ++ t') :=
  (h.append_right s').trans (h'.append_left t)

/-- A comma after the last item makes no difference if the item does not end in a comma itself. -/
theorem interchangeable_lastComma {c close : Char} (hc : c ≠ ',')
    (hclose : isClosing close = true) : Interchangeable [c, ',', close] [c, close] := by
  intro after
  refine ⟨rfl, ?_⟩
  simp [withoutLastCommas, hc, hclose]

end Text

namespace Doc

open Text

/-- Does a document say the same, spaces and last commas aside, in whatever way it is written? -/
def Steady (doc : Doc) : Prop :=
  ∀ s, doc.Allows s → Interchangeable (unspaced s) (unspaced doc.flatText.toList)

theorem unspaced_newline (indent : Int) : unspaced (newline indent) = [] := by
  simp [unspaced, newline, isSpacing]

theorem steady_empty : empty.Steady := by
  rintro s rfl
  exact .refl _

theorem steady_text (t : String) : (text t).Steady := by
  rintro s rfl
  exact .refl _

theorem steady_line : line.Steady := by
  rintro s ⟨indent, rfl⟩
  rw [unspaced_newline]
  exact .refl _

/-- A break that writes nothing but spaces. -/
theorem steady_brk {flat broken : String} (hflat : unspaced flat.toList = [])
    (hbroken : unspaced broken.toList = []) : (brk flat broken).Steady := by
  rintro s (rfl | ⟨indent, rfl⟩)
  · exact .refl _
  · rw [unspaced_append, hbroken, unspaced_newline, flatText, hflat]
    exact .refl _

theorem steady_append {first second : Doc} (hfirst : first.Steady) (hsecond : second.Steady) :
    (append first second).Steady := by
  rintro s ⟨front, back, hfront, hback, rfl⟩
  rw [unspaced_append, flatText, String.toList_append, unspaced_append]
  exact (hfirst front hfront).append (hsecond back hback)

theorem steady_concat (docs : List Doc) (h : ∀ doc ∈ docs, doc.Steady) :
    (concat docs).Steady := by
  induction docs with
  | nil => exact steady_empty
  | cons doc rest ih =>
    rw [List.forall_mem_cons] at h
    exact steady_append h.1 (ih h.2)

theorem steady_join {separator : Doc} {docs : List Doc} (hs : separator.Steady)
    (h : ∀ doc ∈ docs, doc.Steady) : (join separator docs).Steady := by
  induction docs with
  | nil => exact steady_empty
  | cons doc rest ih =>
    rw [List.forall_mem_cons] at h
    cases rest with
    | nil => exact steady_append h.1 steady_empty
    | cons next rest => exact steady_append h.1 (steady_append hs (ih h.2))

theorem steady_space : space.Steady := steady_brk (by decide) (by decide)

theorem steady_softBreak : softBreak.Steady := steady_brk (by decide) (by decide)

/-- Does a document end in a character that is neither spacing nor a comma? -/
def EndsFirmly (doc : Doc) : Prop :=
  ∃ c, doc.flatText.toList.getLast? = some c ∧ c ≠ ',' ∧ isSpacing c = false

theorem EndsFirmly.of_append {s t : String} {doc : Doc} (h : doc.flatText = s ++ t) {c : Char}
    (hlast : t.toList.getLast? = some c) (hc : c ≠ ',' ∧ isSpacing c = false) : doc.EndsFirmly := by
  refine ⟨c, ?_, hc⟩
  rw [h, String.toList_append, List.getLast?_append, hlast]
  rfl

theorem EndsFirmly.append {second : Doc} (h : second.EndsFirmly) (first : Doc) :
    (append first second).EndsFirmly := by
  obtain ⟨c, hlast, hc⟩ := h
  exact .of_append rfl hlast hc

theorem EndsFirmly.join {separator : Doc} {docs : List Doc} (hne : docs ≠ [])
    (h : ∀ doc ∈ docs, doc.EndsFirmly) : (join separator docs).EndsFirmly := by
  induction docs with
  | nil => exact absurd rfl hne
  | cons doc rest ih =>
    rw [List.forall_mem_cons] at h
    cases rest with
    | nil =>
      obtain ⟨c, hlast, hc⟩ := h.1
      refine ⟨c, ?_, hc⟩
      rw [flatText_join, List.map_singleton, String.intercalate_singleton]
      exact hlast
    | cons next rest => exact ((ih (by simp) h.2).append separator).append doc

theorem EndsFirmly.unspaced_eq {doc : Doc} (h : doc.EndsFirmly) :
    ∃ front c, unspaced doc.flatText.toList = front ++ [c] ∧ c ≠ ',' := by
  obtain ⟨c, hlast, hc, hspacing⟩ := h
  obtain ⟨front, hfront⟩ := List.getLast?_eq_some_iff.mp hlast
  refine ⟨unspaced front, c, ?_, hc⟩
  rw [hfront, unspaced_append]
  simp [unspaced, hspacing]

end Doc

end CaseScript
