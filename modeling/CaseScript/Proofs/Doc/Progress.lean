import CaseScript.Proofs.Doc.Arrangement
import Mathlib.Logic.Relation

/-!
# The states of a layout

A layout takes one pending document at a time. The text of a document is the same in all states that
its layout goes through: what has been written, and behind it the layout of what is pending.
-/

namespace CaseScript
namespace Doc

/-- What a layout has written, the column that it has come to, and the documents that are left. -/
structure Progress where
  written : List Char
  column : Int
  pending : List Pending

namespace Progress

def start (doc : Doc) : Progress := ⟨[], 0, [⟨0, .broken, doc⟩]⟩

/-- The text that is there when nothing is pending any more. -/
def text (width : Int) (p : Progress) : List Char := p.written ++ layout width p.column p.pending

theorem text_start (width : Int) (doc : Doc) :
    (start doc).text width = (doc.render width).toList := by
  rw [text, render, String.toList_ofList]
  rfl

end Progress

/-- One step of a layout, which deals with the first of the pending documents. -/
inductive Step (width : Int) : Progress → Progress → Prop
  | empty {s : List Char} {c i : Int} {m : Mode} {rest : List Pending} :
    Step width ⟨s, c, ⟨i, m, .empty⟩ :: rest⟩ ⟨s, c, rest⟩
  | text {s : List Char} {c i : Int} {m : Mode} {t : String} {rest : List Pending} :
    Step width ⟨s, c, ⟨i, m, .text t⟩ :: rest⟩ ⟨s ++ t.toList, c + t.length, rest⟩
  | line {s : List Char} {c i : Int} {m : Mode} {rest : List Pending} :
    Step width ⟨s, c, ⟨i, m, .line⟩ :: rest⟩ ⟨s ++ newline i, i, rest⟩
  | flatBrk {s : List Char} {c i : Int} {flat broken : String} {rest : List Pending} :
    Step width ⟨s, c, ⟨i, .flat, .brk flat broken⟩ :: rest⟩
      ⟨s ++ flat.toList, c + flat.length, rest⟩
  | brokenBrk {s : List Char} {c i : Int} {flat broken : String} {rest : List Pending} :
    Step width ⟨s, c, ⟨i, .broken, .brk flat broken⟩ :: rest⟩
      ⟨s ++ (broken.toList ++ newline i), i, rest⟩
  | append {s : List Char} {c i : Int} {m : Mode} {first second : Doc} {rest : List Pending} :
    Step width ⟨s, c, ⟨i, m, .append first second⟩ :: rest⟩
      ⟨s, c, ⟨i, m, first⟩ :: ⟨i, m, second⟩ :: rest⟩
  | nest {s : List Char} {c i n : Int} {m : Mode} {doc : Doc} {rest : List Pending} :
    Step width ⟨s, c, ⟨i, m, .nest n doc⟩ :: rest⟩ ⟨s, c, ⟨i + n, m, doc⟩ :: rest⟩
  | flatNest {s : List Char} {c i n : Int} {doc : Doc} {rest : List Pending} :
    Step width ⟨s, c, ⟨i, .flat, .nestIfBroken n doc⟩ :: rest⟩ ⟨s, c, ⟨i, .flat, doc⟩ :: rest⟩
  | brokenNest {s : List Char} {c i n : Int} {doc : Doc} {rest : List Pending} :
    Step width ⟨s, c, ⟨i, .broken, .nestIfBroken n doc⟩ :: rest⟩
      ⟨s, c, ⟨i + n, .broken, doc⟩ :: rest⟩
  | flatGroup {s : List Char} {c i : Int} {doc : Doc} {rest : List Pending} :
    Step width ⟨s, c, ⟨i, .flat, .group doc⟩ :: rest⟩ ⟨s, c, ⟨i, .flat, doc⟩ :: rest⟩
  /-- A group that fits becomes flat. -/
  | flatten {s : List Char} {c i : Int} {doc : Doc} {rest : List Pending}
    (fitting : fits (width - c) (⟨i, .flat, doc⟩ :: rest) = true) :
    Step width ⟨s, c, ⟨i, .broken, .group doc⟩ :: rest⟩ ⟨s, c, ⟨i, .flat, doc⟩ :: rest⟩
  /-- A group that does not fit is broken. -/
  | spread {s : List Char} {c i : Int} {doc : Doc} {rest : List Pending}
    (unfitting : fits (width - c) (⟨i, .flat, doc⟩ :: rest) = false) :
    Step width ⟨s, c, ⟨i, .broken, .group doc⟩ :: rest⟩ ⟨s, c, ⟨i, .broken, doc⟩ :: rest⟩

/-- Some steps of a layout, or none. -/
abbrev Run (width : Int) : Progress → Progress → Prop := Relation.ReflTransGen (Step width)

section Step

variable {width : Int} {p q : Progress}

/-- A layout goes on as long as anything is pending. -/
theorem exists_step (width : Int) (h : p.pending ≠ []) : ∃ q, Step width p q := by
  obtain ⟨s, c, pending⟩ := p
  obtain ⟨⟨i, m, doc⟩, rest, rfl⟩ := List.exists_cons_of_ne_nil h
  cases doc with
  | empty => exact ⟨_, .empty⟩
  | text t => exact ⟨_, .text⟩
  | line => exact ⟨_, .line⟩
  | brk flat broken => cases m <;> exact ⟨_, by constructor⟩
  | append first second => exact ⟨_, .append⟩
  | nest n doc => exact ⟨_, .nest⟩
  | nestIfBroken n doc => cases m <;> exact ⟨_, by constructor⟩
  | group doc =>
    cases m with
    | flat => exact ⟨_, .flatGroup⟩
    | broken =>
      cases h : fits (width - c) (⟨i, .flat, doc⟩ :: rest) with
      | true => exact ⟨_, .flatten h⟩
      | false => exact ⟨_, .spread h⟩

theorem Step.work_lt (h : Step width p q) : work q.pending < work p.pending := by
  cases h <;> simp only [work, weight] <;> omega

theorem Step.text_eq (h : Step width p q) : q.text width = p.text width := by
  cases h <;> simp_all [Progress.text, layout]

theorem Run.text_eq (h : Run width p q) : q.text width = p.text width := by
  induction h with
  | refl => rfl
  | tail _ step ih => exact step.text_eq.trans ih

end Step

/-! ## Parts of documents -/

/-- Is a document a part of another one, or the whole of it? -/
inductive Within (part : Doc) : Doc → Prop
  | self : Within part part
  | first {first : Doc} (second : Doc) (h : Within part first) : Within part (.append first second)
  | second (first : Doc) {second : Doc} (h : Within part second) :
    Within part (.append first second)
  | nest (n : Int) {doc : Doc} (h : Within part doc) : Within part (.nest n doc)
  | nestIfBroken (n : Int) {doc : Doc} (h : Within part doc) : Within part (.nestIfBroken n doc)
  | group {doc : Doc} (h : Within part doc) : Within part (.group doc)

theorem Within.trans {a b c : Doc} (hab : a.Within b) (hbc : b.Within c) : a.Within c := by
  induction hbc with
  | self => exact hab
  | first second _ ih => exact .first second ih
  | second first _ ih => exact .second first ih
  | nest n _ ih => exact .nest n ih
  | nestIfBroken n _ ih => exact .nestIfBroken n ih
  | group _ ih => exact .group ih

theorem Within.join {part doc separator : Doc} {docs : List Doc} (h : part.Within doc)
    (hmem : doc ∈ docs) : part.Within (join separator docs) := by
  induction docs with
  | nil => exact absurd hmem List.not_mem_nil
  | cons other rest ih =>
    cases rest with
    | nil => exact .first _ (List.mem_singleton.mp hmem ▸ h)
    | cons next rest =>
      rcases List.mem_cons.mp hmem with rfl | hmem
      · exact .first _ h
      · exact .second _ (.second _ (ih hmem))

/-- A layout of `doc` comes to a part in a state in which it is the first of what is pending. -/
structure Met (width : Int) (doc part : Doc) (p : Progress) (indent : Int) (m : Mode)
    (rest : List Pending) : Prop where
  run : Run width (.start doc) p
  pending : p.pending = ⟨indent, m, part⟩ :: rest

section Met

variable (width : Int)

/-- A layout deals with a document as a whole before it comes to the next. -/
theorem run_past (s : List Char) (c i : Int) (m : Mode) (doc : Doc) (rest : List Pending) :
    Run width ⟨s, c, ⟨i, m, doc⟩ :: rest⟩
      ⟨s ++ (doc.arrange width i m (following rest) c).1,
        (doc.arrange width i m (following rest) c).2, rest⟩ := by
  induction doc generalizing s c i m rest with
  | empty =>
    rw [arrange, List.append_nil]
    exact .single .empty
  | text t => exact .single .text
  | line => exact .single .line
  | brk flat broken => cases m <;> exact .single (by constructor)
  | append first second ihfirst ihsecond =>
    refine .head .append ((ihfirst s c i m (⟨i, m, second⟩ :: rest)).trans ?_)
    rw [arrange, ← List.append_assoc]
    exact ihsecond ..
  | nest n doc ih => exact .head .nest (ih ..)
  | nestIfBroken n doc ih =>
    cases m with
    | flat => exact .head .flatNest (ih ..)
    | broken => exact .head .brokenNest (ih ..)
  | group doc ih =>
    cases m with
    | flat => exact .head .flatGroup (ih ..)
    | broken =>
      rw [arrange]
      by_cases h : doc.Fits width c (following rest)
      · rw [if_pos h]
        exact .head (.flatten ((fits_iff ..).mpr h)) (ih ..)
      · rw [if_neg h]
        exact .head (.spread (by simpa using mt (fits_iff width c i doc rest).mp h)) (ih ..)

/-- A layout comes to all parts of the first pending document. -/
theorem exists_run_of_within {part doc : Doc} (h : part.Within doc) (s : List Char) (c i : Int)
    (m : Mode) (rest : List Pending) :
    ∃ s' c' i' m' rest',
      Run width ⟨s, c, ⟨i, m, doc⟩ :: rest⟩ ⟨s', c', ⟨i', m', part⟩ :: rest'⟩ := by
  induction h generalizing s c i m rest with
  | self => exact ⟨s, c, i, m, rest, .refl⟩
  | first second _ ih =>
    obtain ⟨s', c', i', m', rest', hrun⟩ := ih s c i m (⟨i, m, second⟩ :: rest)
    exact ⟨s', c', i', m', rest', .head .append hrun⟩
  | second first _ ih =>
    rename_i second _
    have hpast := run_past width s c i m first (⟨i, m, second⟩ :: rest)
    obtain ⟨s', c', i', m', rest', hrun⟩ := ih _ _ i m rest
    exact ⟨s', c', i', m', rest', .head .append (hpast.trans hrun)⟩
  | nest n _ ih =>
    obtain ⟨s', c', i', m', rest', hrun⟩ := ih s c (i + n) m rest
    exact ⟨s', c', i', m', rest', .head .nest hrun⟩
  | nestIfBroken n _ ih =>
    cases m with
    | flat =>
      obtain ⟨s', c', i', m', rest', hrun⟩ := ih s c i .flat rest
      exact ⟨s', c', i', m', rest', .head .flatNest hrun⟩
    | broken =>
      obtain ⟨s', c', i', m', rest', hrun⟩ := ih s c (i + n) .broken rest
      exact ⟨s', c', i', m', rest', .head .brokenNest hrun⟩
  | group _ ih =>
    rename_i doc _
    cases m with
    | flat =>
      obtain ⟨s', c', i', m', rest', hrun⟩ := ih s c i .flat rest
      exact ⟨s', c', i', m', rest', .head .flatGroup hrun⟩
    | broken =>
      cases hfit : fits (width - c) (⟨i, .flat, doc⟩ :: rest) with
      | true =>
        obtain ⟨s', c', i', m', rest', hrun⟩ := ih s c i .flat rest
        exact ⟨s', c', i', m', rest', .head (.flatten hfit) hrun⟩
      | false =>
        obtain ⟨s', c', i', m', rest', hrun⟩ := ih s c i .broken rest
        exact ⟨s', c', i', m', rest', .head (.spread hfit) hrun⟩

theorem exists_met {part doc : Doc} (h : part.Within doc) :
    ∃ p i m rest, Met width doc part p i m rest := by
  obtain ⟨s, c, i, m, rest, hrun⟩ := exists_run_of_within width h [] 0 0 .broken []
  exact ⟨_, i, m, rest, hrun, rfl⟩

variable {width} {doc part : Doc} {p : Progress} {i : Int} {m : Mode} {rest : List Pending}

/-- What is written for a part stands right behind what was written before it. -/
theorem Met.render_eq (h : Met width doc part p i m rest) :
    (doc.render width).toList =
      p.written ++ (part.arrange width i m (following rest) p.column).1 ++
        layout width (part.arrange width i m (following rest) p.column).2 rest := by
  rw [← Progress.text_start, ← Run.text_eq h.run, Progress.text, h.pending, layout_cons,
    List.append_assoc]

/-- Of two documents in a row the first is met in the same place. -/
theorem Met.first {first second : Doc} (h : Met width doc (append first second) p i m rest) :
    Met width doc first ⟨p.written, p.column, ⟨i, m, first⟩ :: ⟨i, m, second⟩ :: rest⟩ i m
      (⟨i, m, second⟩ :: rest) := by
  have hrun := h.run
  obtain ⟨written, column, pending⟩ := p
  obtain rfl : pending = ⟨i, m, append first second⟩ :: rest := h.pending
  exact ⟨hrun.tail .append, rfl⟩

/-- The second is met behind the text of the first. -/
theorem Met.second {first second : Doc} (h : Met width doc (append first second) p i m rest) :
    ∃ column, Met width doc second
      ⟨p.written ++ (first.arrange width i m (following (⟨i, m, second⟩ :: rest)) p.column).1,
        column, ⟨i, m, second⟩ :: rest⟩ i m rest :=
  ⟨_, h.first.run.trans (run_past ..), rfl⟩

end Met

/-! ## Flat surroundings -/

/-- A step replaces the first pending document by documents in the same mode, except that it makes a
group flat that fits. -/
theorem Step.pending_cases {width : Int} {p q : Progress} (h : Step width p q) :
    ∃ head new tail, p.pending = head :: tail ∧ q.pending = new ++ tail ∧
      ((∀ x ∈ new, x.mode = head.mode) ∨
        ∃ i inner, head = ⟨i, .broken, .group inner⟩ ∧
          q = ⟨p.written, p.column, ⟨i, .flat, inner⟩ :: tail⟩ ∧ new = [⟨i, .flat, inner⟩]) := by
  cases h with
  | empty | text | line | flatBrk | brokenBrk => exact ⟨_, [], _, rfl, rfl, .inl (by simp)⟩
  | append => exact ⟨_, [_, _], _, rfl, rfl, .inl (by simp)⟩
  | nest | flatNest | brokenNest | flatGroup => exact ⟨_, [_], _, rfl, rfl, .inl (by simp)⟩
  | flatten fitting => exact ⟨_, [_], _, rfl, rfl, .inr ⟨_, _, rfl, rfl, rfl⟩⟩
  | spread unfitting => exact ⟨_, [_], _, rfl, rfl, .inl (by simp)⟩

/-- A layout comes to `q` inside a group that it made flat, and what is pending behind the group is
the end of `rest`. -/
def InFlatGroup (width : Int) (doc : Doc) (q : Progress) (rest : List Pending) : Prop :=
  ∃ p i inner outer between, Met width doc (.group inner) p i .broken outer ∧
    Step width p ⟨p.written, p.column, ⟨i, .flat, inner⟩ :: outer⟩ ∧
    Run width ⟨p.written, p.column, ⟨i, .flat, inner⟩ :: outer⟩ q ∧ rest = between ++ outer

/-- Nothing becomes flat but by a group around it. -/
theorem inFlatGroup_of_run {width : Int} {doc : Doc} {q : Progress} (h : Run width (.start doc) q)
    {before after : List Pending} {x : Pending} (hpending : q.pending = before ++ x :: after)
    (hflat : x.mode = .flat) : InFlatGroup width doc q after := by
  induction h generalizing before x after with
  | refl =>
    have hx : x ∈ (Progress.start doc).pending := by simp [hpending]
    rw [Progress.start, List.mem_singleton] at hx
    exact absurd (hx ▸ hflat) nofun
  | @tail p q hrun hstep ih =>
    obtain ⟨head, new, tail, hp, hq, hnew⟩ := hstep.pending_cases
    have hlater : ∀ {rest}, InFlatGroup width doc p rest → InFlatGroup width doc q rest := by
      rintro rest ⟨p', i, inner, outer, between, hmet, hflatten, hafter, rfl⟩
      exact ⟨p', i, inner, outer, between, hmet, hflatten, hafter.tail hstep, rfl⟩
    have hbehind : ∀ front, tail = front ++ x :: after → InFlatGroup width doc q after := by
      intro front htail
      have hp' : p.pending = (head :: front) ++ x :: after := by rw [hp, htail, List.cons_append]
      exact hlater (ih hp' hflat)
    rw [hq, List.append_eq_append_iff] at hpending
    rcases hpending with ⟨front, -, htail⟩ | ⟨back, rfl, hback⟩
    · exact hbehind front htail
    · cases back with
      | nil => exact hbehind [] hback.symm
      | cons y back =>
        obtain ⟨rfl, rfl⟩ := List.cons.inj hback
        rcases hnew with hmode | ⟨i, inner, rfl, rfl, hnew⟩
        · have hhead : head.mode = .flat := (hmode x (by simp)).symm.trans hflat
          have hp' : p.pending = [] ++ head :: tail := hp
          obtain ⟨p', i, inner, outer, between, hmet, hflatten, hafter, rfl⟩ := ih hp' hhead
          exact ⟨p', i, inner, outer, back ++ between, hmet, hflatten, hafter.tail hstep,
            (List.append_assoc ..).symm⟩
        · have hback : back = [] := by
            have hlength := congrArg List.length hnew
            simp only [List.length_append, List.length_cons, List.length_nil] at hlength
            exact List.length_eq_zero_iff.mp (by omega)
          exact ⟨p, i, inner, tail, [], ⟨hrun, hp⟩, hstep, .refl, by rw [hback]; rfl⟩

/-- Where a part is met in flat mode, it is met inside a group that was made flat. -/
theorem Met.inFlatGroup {width : Int} {doc part : Doc} {p : Progress} {i : Int}
    {rest : List Pending} (h : Met width doc part p i .flat rest) :
    InFlatGroup width doc p rest := by
  have hpending : p.pending = [] ++ ⟨i, .flat, part⟩ :: rest := h.pending
  exact inFlatGroup_of_run h.run hpending rfl

end Doc
end CaseScript
