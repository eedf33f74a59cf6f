import CaseScript.Proofs.Doc.Progress

/-!
# What holds wherever a layout comes

A triple says what a document makes of the text before it, whatever is pending behind it: from a
text and a column of one kind the layout comes to a text and a column of another, and all that it
meets on the way is as noted. There is one rule for each constructor of documents.
-/

namespace CaseScript
namespace Doc

/-- What is known of the text before a document and of the column that the document starts in. -/
abbrev Situation := List Char → Int → Prop

/-- Nothing is known. -/
def Anywhere : Situation := fun _ _ => True

/-- What is to hold where a layout comes to two documents in a row, with the indentation and the
mode of their surroundings. -/
abbrev Note := Doc → Doc → Int → Mode → Situation

/-- From here on a layout comes to two documents in a row only as noted. -/
def Safe (note : Note) (width : Int) (p : Progress) : Prop :=
  ∀ q, Run width p q → ∀ i m first second rest,
    q.pending = ⟨i, m, .append first second⟩ :: rest → note first second i m q.written q.column

/-- From a text and a column as in `before` a layout gets past the document safely, and then they
are as in `after`. -/
def Triple (note : Note) (i : Int) (m : Mode) (before : Situation) (doc : Doc)
    (after : Situation) : Prop :=
  ∀ width s c rest, before s c → (∀ s' c', after s' c' → Safe note width ⟨s', c', rest⟩) →
    Safe note width ⟨s, c, ⟨i, m, doc⟩ :: rest⟩

variable {note : Note} {width : Int}

theorem safe_of_pending_nil {p : Progress} (h : p.pending = []) : Safe note width p := by
  intro q hrun i m first second rest hpending
  rcases hrun.cases_head with rfl | ⟨next, hstep, -⟩
  · exact absurd (h.symm.trans hpending) (List.cons_ne_nil _ _).symm
  · have hwork := hstep.work_lt
    rw [h] at hwork
    exact absurd hwork (Nat.not_lt_zero _)

/-- It is enough to look one step ahead where no two documents in a row are pending. -/
theorem safe_of_steps {s : List Char} {c i : Int} {m : Mode} {doc : Doc} {rest : List Pending}
    (hdoc : ∀ first second, doc ≠ append first second)
    (h : ∀ q, Step width ⟨s, c, ⟨i, m, doc⟩ :: rest⟩ q → Safe note width q) :
    Safe note width ⟨s, c, ⟨i, m, doc⟩ :: rest⟩ := by
  intro q hrun i' m' first second rest' hpending
  rcases hrun.cases_head with rfl | ⟨next, hstep, hrun⟩
  · cases hpending
    exact absurd rfl (hdoc first second)
  · exact h next hstep q hrun i' m' first second rest' hpending

section Rules

variable {i : Int} {m : Mode} {before between after : Situation} {first second doc : Doc}

/-- Less may be known behind a document. -/
theorem Triple.imp {after' : Situation} (h : Triple note i m before doc after)
    (hafter : ∀ s c, after s c → after' s c) : Triple note i m before doc after' :=
  fun width s c rest hs hrest =>
    h width s c rest hs fun s' c' hs' => hrest s' c' (hafter s' c' hs')

theorem Triple.anywhere (h : Triple note i m before doc after) :
    Triple note i m before doc Anywhere := h.imp fun _ _ _ => trivial

theorem triple_empty (h : ∀ s c, before s c → after s c) :
    Triple note i m before empty after := by
  intro width s c rest hs hrest
  refine safe_of_steps nofun ?_
  rintro _ ⟨⟩
  exact hrest s c (h s c hs)

theorem triple_text {t : String} (h : ∀ s c, before s c → after (s ++ t.toList) (c + t.length)) :
    Triple note i m before (text t) after := by
  intro width s c rest hs hrest
  refine safe_of_steps nofun ?_
  rintro _ ⟨⟩
  exact hrest _ _ (h s c hs)

theorem triple_line (h : ∀ s c, before s c → after (s ++ newline i) i) :
    Triple note i m before line after := by
  intro width s c rest hs hrest
  refine safe_of_steps nofun ?_
  rintro _ ⟨⟩
  exact hrest _ _ (h s c hs)

theorem triple_flatBrk {flat broken : String}
    (h : ∀ s c, before s c → after (s ++ flat.toList) (c + flat.length)) :
    Triple note i .flat before (brk flat broken) after := by
  intro width s c rest hs hrest
  refine safe_of_steps nofun ?_
  rintro _ ⟨⟩
  exact hrest _ _ (h s c hs)

theorem triple_brokenBrk {flat broken : String}
    (h : ∀ s c, before s c → after (s ++ (broken.toList ++ newline i)) i) :
    Triple note i .broken before (brk flat broken) after := by
  intro width s c rest hs hrest
  refine safe_of_steps nofun ?_
  rintro _ ⟨⟩
  exact hrest _ _ (h s c hs)

theorem triple_append (hnote : ∀ s c, before s c → note first second i m s c)
    (hfirst : Triple note i m before first between)
    (hsecond : Triple note i m between second after) :
    Triple note i m before (append first second) after := by
  intro width s c rest hs hrest q hrun i' m' first' second' rest' hpending
  rcases hrun.cases_head with rfl | ⟨next, hstep, hrun⟩
  · cases hpending
    exact hnote s c hs
  · cases hstep
    exact hfirst width s c _ hs (fun s' c' hs' => hsecond width s' c' rest hs' hrest) q hrun i' m'
      first' second' rest' hpending

theorem triple_nest {n : Int} (h : Triple note (i + n) m before doc after) :
    Triple note i m before (nest n doc) after := by
  intro width s c rest hs hrest
  refine safe_of_steps nofun ?_
  rintro _ ⟨⟩
  exact h width s c rest hs hrest

theorem triple_flatNest {n : Int} (h : Triple note i .flat before doc after) :
    Triple note i .flat before (nestIfBroken n doc) after := by
  intro width s c rest hs hrest
  refine safe_of_steps nofun ?_
  rintro _ ⟨⟩
  exact h width s c rest hs hrest

theorem triple_brokenNest {n : Int} (h : Triple note (i + n) .broken before doc after) :
    Triple note i .broken before (nestIfBroken n doc) after := by
  intro width s c rest hs hrest
  refine safe_of_steps nofun ?_
  rintro _ ⟨⟩
  exact h width s c rest hs hrest

/-- Nothing is known of the width, so a group that is met in broken mode may become either. -/
theorem triple_group (hflat : Triple note i .flat before doc after)
    (hbroken : m = .broken → Triple note i .broken before doc after) :
    Triple note i m before (group doc) after := by
  intro width s c rest hs hrest
  refine safe_of_steps nofun ?_
  rintro _ (_ | _)
  · exact hflat width s c rest hs hrest
  · exact hflat width s c rest hs hrest
  · exact hbroken rfl width s c rest hs hrest

/-- Documents with a separator between neighbours, which leads from each to the next. -/
theorem triple_join {separator : Doc} {docs : List Doc} (hne : docs ≠ [])
    (hquiet : ∀ first second i m s c, note first (append separator second) i m s c)
    (hbetween : ∀ second i m s c, note separator second i m s c)
    (hempty : ∀ first i m s c, note first empty i m s c)
    (hdocs : ∀ doc ∈ docs, Triple note i m before doc after)
    (hseparator : Triple note i m after separator before) :
    Triple note i m before (join separator docs) after := by
  induction docs with
  | nil => exact absurd rfl hne
  | cons doc rest ih =>
    rw [List.forall_mem_cons] at hdocs
    cases rest with
    | nil =>
      exact triple_append (fun s c _ => hempty doc i m s c) hdocs.1
        (triple_empty fun _ _ hs => hs)
    | cons next rest =>
      exact triple_append (fun s c _ => hquiet doc _ i m s c) hdocs.1
        (triple_append (fun s c _ => hbetween _ i m s c) hseparator
          (ih (List.cons_ne_nil next rest) hdocs.2))

end Rules

/-- A layout of a document comes to two documents in a row only as noted. -/
theorem Met.noted {doc first second : Doc} {p : Progress} {i : Int} {m : Mode}
    {rest : List Pending} {before after : Situation}
    (hmet : Met width doc (append first second) p i m rest)
    (h : Triple note 0 .broken before doc after) (hstart : before [] 0) :
    note first second i m p.written p.column :=
  h width [] 0 [] hstart (fun _ _ _ => safe_of_pending_nil rfl) p hmet.run i m first second rest
    hmet.pending

end Doc
end CaseScript
