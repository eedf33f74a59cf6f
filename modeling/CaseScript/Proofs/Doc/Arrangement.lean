import CaseScript.Doc.Layout
import CaseScript.Proofs.Doc.FlatText

/-!
# Layout by structure

The layout of a document as a recursion on its structure. What follows a document counts only where
a group has to know how much more text will stand on its line.
-/

namespace CaseScript
namespace Doc

/-- Documents that follow, each with the mode of its own surroundings. -/
abbrev Following := List (Mode × Doc)

/-- The text that a document puts before its first newline, and `after` behind it if it has none.
The groups inside take the mode of their surroundings. -/
def lead (m : Mode) : Doc → List Char → List Char
  | empty, after => after
  | text s, after => s.toList ++ after
  | line, _ => []
  | brk flat _, after =>
    match m with
    | .flat => flat.toList ++ after
    | .broken => []
  | append first second, after => first.lead m (second.lead m after)
  | nest _ doc, after | nestIfBroken _ doc, after | group doc, after => doc.lead m after

/-- The text of several documents up to the first newline. -/
def leadAll : Following → List Char
  | [] => []
  | (m, doc) :: rest => doc.lead m (leadAll rest)

/-- Does a flat document fit into what is left of its line, with all that follows it there? -/
def Fits (width column : Int) (doc : Doc) (following : Following) : Prop :=
  0 ≤ width - column ∧ (leadAll ((.flat, doc) :: following)).length ≤ width - column

instance (width column : Int) (doc : Doc) (following : Following) :
    Decidable (doc.Fits width column following) :=
  inferInstanceAs (Decidable (_ ∧ _))

/-- The text of a document that starts in `column`, and the column behind it. -/
def arrange (width indent : Int) (m : Mode) (following : Following) (column : Int) :
    Doc → List Char × Int
  | empty => ([], column)
  | text s => (s.toList, column + s.length)
  | line => (newline indent, indent)
  | brk flat broken =>
    match m with
    | .flat => (flat.toList, column + flat.length)
    | .broken => (broken.toList ++ newline indent, indent)
  | append first second =>
    let front := first.arrange width indent m ((m, second) :: following) column
    let back := second.arrange width indent m following front.2
    (front.1 ++ back.1, back.2)
  | nest n doc => doc.arrange width (indent + n) m following column
  | nestIfBroken n doc =>
    match m with
    | .flat => doc.arrange width indent .flat following column
    | .broken => doc.arrange width (indent + n) .broken following column
  | group doc =>
    match m with
    | .flat => doc.arrange width indent .flat following column
    | .broken =>
      if doc.Fits width column following then doc.arrange width indent .flat following column
      else doc.arrange width indent .broken following column

/-- What pending documents are to a document before them. -/
def following (pending : List Pending) : Following := pending.map fun p => (p.mode, p.doc)

@[simp] theorem following_cons (indent : Int) (m : Mode) (doc : Doc) (rest : List Pending) :
    following (⟨indent, m, doc⟩ :: rest) = (m, doc) :: following rest := rfl

/-- A piece of text at the front uses up as much room as it is long. -/
theorem decide_and_fits {room : Int} {piece after : List Char} {fit : Bool}
    (h : fit = decide (0 ≤ room - piece.length ∧ after.length ≤ room - piece.length)) :
    (decide (0 ≤ room) && fit) = decide (0 ≤ room ∧ (piece ++ after).length ≤ room) := by
  rw [h, Bool.eq_iff_iff]
  simp only [Bool.and_eq_true, decide_eq_true_eq, List.length_append, Int.natCast_add]
  omega

/-- The test reads the pending documents one by one and stops as soon as the room is used up; so it
finds out whether their text up to the first newline is too long. -/
theorem fits_eq (room : Int) (pending : List Pending) :
    fits room pending =
      decide (0 ≤ room ∧ (leadAll (following pending)).length ≤ room) := by
  fun_induction fits room pending with
  | case1 room => simp [following, leadAll]
  | case2 room indent m rest ih => exact ih
  | case3 room indent m s rest ih =>
    rw [← String.length_toList] at ih ⊢
    exact decide_and_fits ih
  | case4 room indent m rest => simp [leadAll, lead]
  | case5 room indent flat broken rest ih =>
    rw [← String.length_toList] at ih ⊢
    exact decide_and_fits ih
  | case6 room indent flat broken rest => simp [leadAll, lead]
  | case7 room indent m first second rest ih => exact ih
  | case8 room indent m n doc rest ih => exact ih
  | case9 room indent m n doc rest ih => exact ih
  | case10 room indent m doc rest ih => exact ih

theorem fits_iff (width column indent : Int) (doc : Doc) (rest : List Pending) :
    fits (width - column) (⟨indent, .flat, doc⟩ :: rest) = true ↔
      doc.Fits width column (following rest) := by
  rw [fits_eq, decide_eq_true_eq]
  exact Iff.rfl

/-- The documents behind the first one are laid out from the column that the first one ends in, and
all that the first one has to know of them is what stands on its last line. -/
theorem layout_cons (width column indent : Int) (m : Mode) (doc : Doc) (rest : List Pending) :
    layout width column (⟨indent, m, doc⟩ :: rest) =
      (doc.arrange width indent m (following rest) column).1 ++
        layout width (doc.arrange width indent m (following rest) column).2 rest := by
  induction doc generalizing indent m column rest with
  | empty => rw [layout]; rfl
  | text s => rw [layout]; rfl
  | line => rw [layout]; rfl
  | brk flat broken => cases m <;> rw [layout] <;> rfl
  | append first second ihfirst ihsecond =>
    rw [layout, ihfirst, ihsecond, ← List.append_assoc]
    rfl
  | nest n doc ih =>
    rw [layout, ih]
    rfl
  | nestIfBroken n doc ih => cases m <;> rw [layout, ih] <;> rfl
  | group doc ih =>
    cases m with
    | flat =>
      rw [layout, ih]
      rfl
    | broken =>
      rw [layout, arrange]
      by_cases h : doc.Fits width column (following rest)
      · rw [if_pos ((fits_iff ..).mpr h), if_pos h, ih]
      · rw [if_neg (mt (fits_iff ..).mp h), if_neg h, ih]

/-- The layout of a document follows its structure. -/
theorem render_eq_arrange (width : Int) (doc : Doc) :
    doc.render width = String.ofList (doc.arrange width 0 .broken [] 0).1 := by
  have h := layout_cons width 0 0 .broken doc []
  rw [layout_nil, List.append_nil] at h
  rw [render, h]
  rfl

/-- A group is flat as long as not one character too many is on its line. -/
example :
    let doc := concat [group (text "ab" ++ space ++ text "c"), text ";", line]
    doc.render 5 = "ab c;\n" ∧ doc.render 4 = "ab\nc;\n" := by
  decide +kernel

/-! ## Kinds of documents -/

/-- Does no part of a document move lines to the left? -/
def Inward : Doc → Prop
  | empty | text _ | line | brk _ _ => True
  | append first second => first.Inward ∧ second.Inward
  | nest n doc | nestIfBroken n doc => 0 ≤ n ∧ doc.Inward
  | group doc => doc.Inward

/-- Are all newlines of a document breaks? -/
def Lineless : Doc → Prop
  | empty | text _ | brk _ _ => True
  | line => False
  | append first second => first.Lineless ∧ second.Lineless
  | nest _ doc | nestIfBroken _ doc | group doc => doc.Lineless

theorem lineless_join {separator : Doc} {docs : List Doc} (hseparator : separator.Lineless)
    (h : ∀ doc ∈ docs, doc.Lineless) : (join separator docs).Lineless := by
  induction docs with
  | nil => trivial
  | cons doc rest ih =>
    rw [List.forall_mem_cons] at h
    cases rest with
    | nil => exact ⟨h.1, trivial⟩
    | cons next rest => exact ⟨h.1, hseparator, ih h.2⟩

/-- Where all newlines are breaks, a flat document says its flat text. -/
theorem arrange_flat {doc : Doc} (h : doc.Lineless) (width i : Int) (following : Following)
    (c : Int) : (doc.arrange width i .flat following c).1 = doc.flatText.toList := by
  induction doc generalizing i following c with
  | empty | text t | brk flat broken => rfl
  | line => exact absurd h id
  | append first second ihfirst ihsecond =>
    rw [arrange, flatText, String.toList_append, ihsecond h.2, ihfirst h.1]
  | nest n doc ih => exact ih h ..
  | nestIfBroken n doc ih => exact ih h ..
  | group doc ih => exact ih h ..

theorem lead_flat {doc : Doc} (h : doc.Lineless) (after : List Char) :
    doc.lead .flat after = doc.flatText.toList ++ after := by
  induction doc generalizing after with
  | empty | text t | brk flat broken => rfl
  | line => exact absurd h id
  | append first second ihfirst ihsecond =>
    rw [lead, flatText, String.toList_append, ihsecond h.2, ihfirst h.1, List.append_assoc]
  | nest n doc ih => exact ih h after
  | nestIfBroken n doc ih => exact ih h after
  | group doc ih => exact ih h after

end Doc
end CaseScript
