import CaseScript.Proofs.Doc.Variants

/-!
# Documents on one line

There is one way to write a document on one line: its flat text. A layout takes it where the flat
text has room on the line together with what follows there, provided that every break stands in a
group. A group without this room is broken, and then each of its own breaks is a newline.
-/

namespace CaseScript
namespace Doc

/-- Are all newlines of a document breaks, and all breaks inside groups? -/
def Grouped : Doc → Prop
  | empty | text _ => True
  | line | brk _ _ => False
  | append first second => first.Grouped ∧ second.Grouped
  | nest _ doc | nestIfBroken _ doc => doc.Grouped
  | group doc => doc.Lineless

/-- Has a document a newline or a break that is in no group inside it? -/
def Splits : Doc → Prop
  | empty | text _ | group _ => False
  | line | brk _ _ => True
  | append first second => first.Splits ∨ second.Splits
  | nest _ doc | nestIfBroken _ doc => doc.Splits

theorem Grouped.lineless {doc : Doc} (h : doc.Grouped) : doc.Lineless := by
  induction doc with
  | empty | text t => trivial
  | line | brk flat broken => exact absurd h id
  | append first second ihfirst ihsecond => exact ⟨ihfirst h.1, ihsecond h.2⟩
  | nest n doc ih | nestIfBroken n doc ih => exact ih h
  | group doc ih => exact h

/-- Can a document stand on one line, and does it if the line is wide enough? -/
structure OneLine (doc : Doc) : Prop where
  grouped : doc.Grouped
  newline_notMem : '\n' ∉ doc.flatText.toList

theorem oneLine_text {s : String} (h : '\n' ∉ s.toList) : (text s).OneLine := ⟨trivial, h⟩

theorem OneLine.append {first second : Doc} (hfirst : first.OneLine) (hsecond : second.OneLine) :
    (append first second).OneLine := by
  refine ⟨⟨hfirst.grouped, hsecond.grouped⟩, ?_⟩
  rw [flatText, String.toList_append, List.mem_append, not_or]
  exact ⟨hfirst.newline_notMem, hsecond.newline_notMem⟩

/-- A line has at most the flat text of a document before the document ends it. -/
theorem length_lead_le (m : Mode) (doc : Doc) (after : List Char) :
    (doc.lead m after).length ≤ doc.flatText.length + after.length := by
  induction doc generalizing after with
  | empty => simp [lead, flatText]
  | text t => simp [lead, flatText, String.length_toList]
  | line => simp [lead]
  | brk flat broken => cases m <;> simp [lead, flatText, String.length_toList]
  | append first second ihfirst ihsecond =>
    have hfirst := ihfirst (second.lead m after)
    have hsecond := ihsecond after
    rw [lead, flatText, String.length_append]
    omega
  | nest n doc ih | nestIfBroken n doc ih | group doc ih => exact ih after

theorem column_arrange_flat {doc : Doc} (h : doc.Lineless) (width i : Int)
    (following : Following) (c : Int) :
    (doc.arrange width i .flat following c).2 = c + doc.flatText.length := by
  induction doc generalizing i following c with
  | empty => simp [arrange, flatText]
  | text t | brk flat broken => rfl
  | line => exact absurd h id
  | append first second ihfirst ihsecond =>
    rw [arrange, flatText, String.length_append, ihsecond h.2, ihfirst h.1]
    omega
  | nest n doc ih | nestIfBroken n doc ih | group doc ih => exact ih h ..

/-- Where there is room for the flat text and for what follows it on the line, a document is its
flat text. What follows is shorter than it could be, since breaks outside of groups end the line. -/
theorem arrange_of_room {doc : Doc} (h : doc.Grouped) {width : Int} (i : Int)
    (following : Following) (c : Int)
    (hroom : c + doc.flatText.length + (leadAll following).length ≤ width) :
    doc.arrange width i .broken following c =
      (doc.flatText.toList, c + doc.flatText.length) := by
  induction doc generalizing i following c with
  | empty => simp [arrange, flatText]
  | text t => rfl
  | line | brk flat broken => exact absurd h id
  | append first second ihfirst ihsecond =>
    have hlead := length_lead_le .broken second (leadAll following)
    rw [flatText, String.length_append] at hroom
    have hfirst := ihfirst h.1 i ((.broken, second) :: following) c (by rw [leadAll]; omega)
    have hsecond := ihsecond h.2 i following (c + first.flatText.length) (by omega)
    rw [arrange, hfirst, hsecond, flatText, String.toList_append, String.length_append,
      Int.natCast_add, Int.add_assoc]
  | nest n doc ih | nestIfBroken n doc ih => exact ih h _ following c hroom
  | group doc ih =>
    rw [flatText] at hroom ⊢
    have hfits : doc.Fits width c following := by
      rw [Fits, leadAll, lead_flat h, List.length_append, String.length_toList]
      omega
    rw [arrange, if_pos hfits, ← arrange_flat h width i following c,
      ← column_arrange_flat h width i following c]

/-- Whatever is decided for its groups, a document on one line is its flat text. -/
theorem eq_flatText_of_allows {doc : Doc} {s : List Char} (h : doc.Allows s) (hs : '\n' ∉ s) :
    s = doc.flatText.toList := by
  induction doc generalizing s with
  | empty | text t => exact h
  | line =>
    obtain ⟨indent, rfl⟩ := h
    exact absurd List.mem_cons_self hs
  | brk flat broken =>
    rcases h with rfl | ⟨indent, rfl⟩
    · rfl
    · exact absurd (List.mem_append_right _ List.mem_cons_self) hs
  | append first second ihfirst ihsecond =>
    obtain ⟨front, back, hfront, hback, rfl⟩ := h
    rw [List.mem_append, not_or] at hs
    rw [flatText, String.toList_append, ihfirst hfront hs.1, ihsecond hback hs.2]
  | nest n doc ih | nestIfBroken n doc ih | group doc ih => exact ih h hs

/-- A break that is not in a flat group ends a line. -/
theorem newline_mem_arrange {doc : Doc} (h : doc.Splits) (width i : Int) (following : Following)
    (c : Int) : '\n' ∈ (doc.arrange width i .broken following c).1 := by
  induction doc generalizing i following c with
  | empty | text t | group doc ih => exact absurd h id
  | line => exact List.mem_cons_self
  | brk flat broken => exact List.mem_append_right _ List.mem_cons_self
  | append first second ihfirst ihsecond =>
    rcases h with h | h
    · exact List.mem_append_left _ (ihfirst h ..)
    · exact List.mem_append_right _ (ihsecond h ..)
  | nest n doc ih | nestIfBroken n doc ih => exact ih h ..

/-- A group whose flat text alone has no room is broken. -/
theorem arrange_group_of_no_room {doc : Doc} (h : doc.Lineless) {width c : Int}
    (hroom : width < c + doc.flatText.length) (i : Int) (following : Following) :
    (group doc).arrange width i .broken following c =
      doc.arrange width i .broken following c := by
  have hfits : ¬ doc.Fits width c following := by
    rw [Fits, leadAll, lead_flat h, List.length_append, String.length_toList]
    omega
  rw [arrange, if_neg hfits]

theorem newline_mem_arrange_group {doc : Doc} (h : doc.Lineless) (hsplits : doc.Splits)
    {width c : Int} (hroom : width < c + doc.flatText.length) (i : Int) (following : Following) :
    '\n' ∈ ((group doc).arrange width i .broken following c).1 := by
  rw [arrange_group_of_no_room h hroom]
  exact newline_mem_arrange hsplits ..

/-! ## Layouts -/

theorem render_of_room {doc : Doc} (h : doc.Grouped) {width : Int}
    (hroom : doc.flatText.length ≤ width) : doc.render width = doc.flatText := by
  have harrange := arrange_of_room h 0 [] 0 (by simpa [leadAll] using hroom)
  rw [render_eq_arrange, harrange, String.ofList_toList]

theorem render_eq_flatText {doc : Doc} {width : Int} (h : '\n' ∉ (doc.render width).toList) :
    doc.render width = doc.flatText :=
  String.toList_injective (eq_flatText_of_allows (allows_render width doc) h)

end Doc
end CaseScript
