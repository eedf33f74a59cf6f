import CaseScript.Proofs.Doc.Arrangement

/-!
# Lines between documents

A newline between two documents keeps them apart: neither layout depends on the other. A document
that is moved to the right is laid out as in a text that is narrower by as many columns.
-/

namespace CaseScript

namespace Text

/-- A text with so many spaces at the start of each of its lines. -/
def indentLines (k : Nat) (s : List Char) : List Char :=
  ['\n'].intercalate ((s.splitOn '\n').map (List.replicate k ' ' ++ ·))

/-- A text with so many spaces behind each of its newlines. -/
def deepened (k : Nat) (s : List Char) : List Char :=
  s.flatMap fun c => if c = '\n' then Doc.newline k else [c]

variable {k : Nat} {s t : List Char}

@[simp] theorem deepened_append : deepened k (s ++ t) = deepened k s ++ deepened k t :=
  List.flatMap_append

theorem deepened_of_notMem (h : '\n' ∉ s) : deepened k s = s := by
  induction s with
  | nil => rfl
  | cons c s ih =>
    rw [List.mem_cons, not_or] at h
    rw [deepened, List.flatMap_cons, if_neg (Ne.symm h.1), ← deepened, ih h.2]
    rfl

theorem deepened_newline {i : Int} (h : 0 ≤ i) :
    deepened k (Doc.newline i) = Doc.newline (i + k) := by
  have hspaces : '\n' ∉ List.replicate i.toNat ' ' := fun h =>
    absurd (List.eq_of_mem_replicate h) (by decide)
  have hsum : (i + k).toNat = k + i.toNat := by omega
  rw [Doc.newline, deepened, List.flatMap_cons, ← deepened, deepened_of_notMem hspaces, if_pos rfl,
    Doc.newline, Int.toNat_natCast, Doc.newline, hsum, List.cons_append,
    List.replicate_append_replicate]

/-- Every line but the first starts behind a newline. -/
theorem indentLines_eq (k : Nat) (s : List Char) :
    indentLines k s = List.replicate k ' ' ++ deepened k s := by
  induction s with
  | nil => simp [indentLines, deepened]
  | cons c s ih =>
    obtain ⟨first, rest, hlines⟩ := List.exists_cons_of_ne_nil (List.splitOn_ne_nil '\n' s)
    rw [indentLines, hlines, List.map_cons] at ih
    rw [indentLines, List.splitOn_cons_eq_if_modifyHead, hlines, deepened, List.flatMap_cons,
      ← deepened]
    by_cases hc : c = '\n'
    · simp [hc, List.intercalate_cons_cons, ih, Doc.newline]
    · have htail := ih
      cases rest <;> simp_all [List.intercalate_cons_cons]

end Text

namespace Doc

open Text

/-! ## Documents that follow -/

/-- All that a layout asks of what follows is the text on the same line. -/
theorem arrange_congr {following following' : Following}
    (h : leadAll following = leadAll following') (width indent : Int) (m : Mode) (column : Int)
    (doc : Doc) :
    doc.arrange width indent m following column = doc.arrange width indent m following' column := by
  induction doc generalizing indent m following following' column with
  | empty | text s | line => rfl
  | brk flat broken => cases m <;> rfl
  | append first second ihfirst ihsecond =>
    have hsecond : leadAll ((m, second) :: following) = leadAll ((m, second) :: following') := by
      rw [leadAll, leadAll, h]
    rw [arrange, arrange, ihfirst hsecond, ihsecond h]
  | nest n doc ih => exact ih h ..
  | nestIfBroken n doc ih => cases m <;> exact ih h ..
  | group doc ih =>
    have hfits : doc.Fits width column following ↔ doc.Fits width column following' := by
      rw [Fits, Fits, leadAll, leadAll, h]
    cases m with
    | flat => exact ih h ..
    | broken => simp only [arrange, hfits, ih h]

/-! ## Documents that are moved to the right -/

/-- Does a layout start a new line only where it indents it? -/
def KeepsLines : Doc → Prop
  | empty | line => True
  | text s => '\n' ∉ s.toList
  | brk flat broken => '\n' ∉ flat.toList ∧ '\n' ∉ broken.toList
  | append first second => first.KeepsLines ∧ second.KeepsLines
  | nest _ doc | nestIfBroken _ doc | group doc => doc.KeepsLines

theorem arrange_deepened {doc : Doc} (hinward : doc.Inward) (hlines : doc.KeepsLines) (k : Nat)
    (width : Int) {indent : Int} (hindent : 0 ≤ indent) (m : Mode) (following : Following)
    (column : Int) :
    doc.arrange width (indent + k) m following (column + k) =
      (deepened k (doc.arrange (width - k) indent m following column).1,
        (doc.arrange (width - k) indent m following column).2 + k) := by
  induction doc generalizing indent m following column with
  | empty => rfl
  | text s =>
    simp only [arrange, deepened_of_notMem hlines]
    rw [Int.add_right_comm]
  | line => simp only [arrange, deepened_newline hindent]
  | brk flat broken =>
    cases m with
    | flat =>
      simp only [arrange, deepened_of_notMem hlines.1]
      rw [Int.add_right_comm]
    | broken =>
      simp only [arrange, deepened_append, deepened_of_notMem hlines.2, deepened_newline hindent]
  | append first second ihfirst ihsecond =>
    simp only [arrange, ihfirst hinward.1 hlines.1 hindent, ihsecond hinward.2 hlines.2 hindent,
      deepened_append]
  | nest n doc ih =>
    have hdeeper := ih hinward.2 hlines (Int.add_nonneg hindent hinward.1) m following column
    rw [Int.add_right_comm] at hdeeper
    exact hdeeper
  | nestIfBroken n doc ih =>
    cases m with
    | flat => exact ih hinward.2 hlines hindent .flat following column
    | broken =>
      have hdeeper :=
        ih hinward.2 hlines (Int.add_nonneg hindent hinward.1) .broken following column
      rw [Int.add_right_comm] at hdeeper
      exact hdeeper
  | group doc ih =>
    have hfits : doc.Fits width (column + k) following ↔ doc.Fits (width - k) column following := by
      unfold Fits
      omega
    cases m with
    | flat => exact ih hinward hlines hindent .flat following column
    | broken =>
      simp only [arrange, hfits]
      split
      · exact ih hinward hlines hindent .flat following column
      · exact ih hinward hlines hindent .broken following column

/-- A document that starts a line of its own and is followed by a newline. -/
theorem arrange_line {doc : Doc} (hinward : doc.Inward) (hlines : doc.KeepsLines) (k : Nat)
    (width : Int) {following : Following} (hfollowing : leadAll following = []) :
    (doc.arrange width k .broken following k).1 = deepened k (doc.render (width - k)).toList := by
  have hlast : leadAll following = leadAll [] := hfollowing
  have hmoved := arrange_deepened hinward hlines k width (Int.le_refl 0) .broken [] 0
  rw [Int.zero_add] at hmoved
  rw [arrange_congr hlast, hmoved, render_eq_arrange, String.toList_ofList]

/-- A layout of lines, each behind a newline. -/
theorem arrange_lines {docs : List Doc} (hinward : ∀ doc ∈ docs, doc.Inward)
    (hlines : ∀ doc ∈ docs, doc.KeepsLines) (hne : docs ≠ []) (k : Nat) (width : Int)
    {following : Following} (hfollowing : leadAll following = []) (column : Int) :
    ((append line (join line docs)).arrange width k .broken following column).1 =
      docs.flatMap fun doc => '\n' :: indentLines k (doc.render (width - k)).toList := by
  induction docs generalizing column with
  | nil => exact absurd rfl hne
  | cons doc rest ih =>
    rw [List.forall_mem_cons] at hinward hlines
    have hdoc : ∀ following : Following, leadAll following = [] →
        newline k ++ (doc.arrange width k .broken following k).1 =
          '\n' :: indentLines k (doc.render (width - k)).toList := by
      intro following hfollowing
      rw [arrange_line hinward.1 hlines.1 k width hfollowing, indentLines_eq]
      rfl
    cases rest with
    | nil =>
      have hempty : leadAll ((.broken, empty) :: following) = [] := hfollowing
      have hjoin : join line [doc] = append doc empty := rfl
      simp only [hjoin, arrange, List.append_nil, hdoc _ hempty, List.flatMap_singleton]
    | cons next rest =>
      have hjoin : join line (doc :: next :: rest) =
          append doc (append line (join line (next :: rest))) := rfl
      have hfirst := hdoc ((.broken, append line (join line (next :: rest))) :: following) rfl
      rw [hjoin, List.flatMap_cons, ← hfirst, ← ih hinward.2 hlines.2 (List.cons_ne_nil next rest),
        List.append_assoc]
      rfl

/-- A newline between two documents cuts all influence of one on the other. -/
theorem render_apart (width : Int) (first second : Doc) :
    (concat [first, line, second]).render width =
      first.render width ++ "\n" ++ second.render width := by
  have hline : leadAll [(.broken, concat [line, second])] = leadAll [] := rfl
  have hempty : leadAll [(.broken, empty)] = leadAll [] := rfl
  have hwhole : ((concat [first, line, second]).arrange width 0 .broken [] 0).1 =
      (first.arrange width 0 .broken [(.broken, concat [line, second])] 0).1 ++
        (newline 0 ++
          ((second.arrange width 0 .broken [(.broken, empty)] 0).1 ++ [])) := rfl
  apply String.toList_injective
  simp only [render_eq_arrange, String.toList_ofList, String.toList_append, hwhole,
    arrange_congr hline, arrange_congr hempty, List.append_nil, List.append_assoc]
  rfl

/-- Lines under a common indentation are laid out one by one, as if each were all of the text and
the text narrower by the indentation. Where there are none, the indentation is all there is. -/
theorem render_nest_lines {docs : List Doc} (hinward : ∀ doc ∈ docs, doc.Inward)
    (hlines : ∀ doc ∈ docs, doc.KeepsLines) (k : Nat) (width : Int) (first second : Doc) :
    (nest k (concat [line, join line docs])).render width =
        String.ofList
          (if docs.isEmpty then newline k
          else docs.flatMap fun doc => '\n' :: indentLines k (doc.render (width - k)).toList) ∧
      (concat [first, line, second]).render width =
        first.render width ++ "\n" ++ second.render width := by
  refine ⟨?_, render_apart width first second⟩
  have hwhole : ((nest k (concat [line, join line docs])).arrange width 0 .broken [] 0).1 =
      newline (0 + k) ++ (((join line docs).arrange width (0 + k) .broken [(.broken, empty)]
        (0 + k)).1 ++ []) := rfl
  rw [render_eq_arrange, hwhole, Int.zero_add, List.append_nil]
  congr 1
  cases docs with
  | nil => simp [arrange]
  | cons doc rest =>
    have hempty : leadAll [(.broken, empty)] = [] := rfl
    exact arrange_lines hinward hlines (List.cons_ne_nil doc rest) k width hempty 0

/-- A group that would fit into the whole width, and a line behind it. -/
def pairAndItem : List Doc := [group (concat [text "a", space, text "b"]), text "c"]

theorem render_nest_lines_pairAndItem :
    (∀ doc ∈ pairAndItem, doc.Inward) ∧ (∀ doc ∈ pairAndItem, doc.KeepsLines) ∧
      (nest 2 (concat [line, join line pairAndItem])).render 4 = "\n  a\n  b\n  c" ∧
      (concat [text "c", line, group (space ++ space)]).render 1 = "c\n\n\n" := by
  have hinward : ∀ doc ∈ pairAndItem, doc.Inward := by simp [pairAndItem, Inward, space]
  have hlines : ∀ doc ∈ pairAndItem, doc.KeepsLines := by simp [pairAndItem, KeepsLines, space]
  have hrender := render_nest_lines hinward hlines 2 4 (text "a") (text "b")
  have hapart := render_nest_lines hinward hlines 2 1 (text "c") (group (space ++ space))
  refine ⟨hinward, hlines, hrender.1.trans ?_, hapart.2.trans ?_⟩ <;> decide +kernel

/-- The text of a break may hold a newline, behind which no layout indents; and where there are no
lines the indentation is printed all the same. -/
theorem render_nest_lines_ne :
    (brk "" "a\nb").Inward ∧
      (nest 2 (concat [line, join line [brk "" "a\nb"]])).render 80 ≠
        String.ofList ([brk "" "a\nb"].flatMap fun doc =>
          '\n' :: indentLines 2 (doc.render (80 - 2)).toList) ∧
      (nest 2 (concat [line, join line []])).render 80 ≠
        String.ofList (([] : List Doc).flatMap fun doc =>
          '\n' :: indentLines 2 (doc.render (80 - 2)).toList) := by
  refine ⟨by simp [Inward], ?_, ?_⟩ <;> decide +kernel

end Doc
end CaseScript
