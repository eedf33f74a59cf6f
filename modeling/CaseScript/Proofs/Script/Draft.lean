import CaseScript.Proofs.Script.FlatText
import CaseScript.Proofs.Script.Reports
import CaseScript.Proofs.Script.Unbroken

/-!
# Drafts of scripts

A draft is written part by part while the tree is walked, and a newline in a text of any part would
end it just as a fault of naming does. So does a literal that cannot be written down, which an
emission takes as it is. Apart from that, drafts and emissions come to the same end: no text that a
draft is made of can hold a newline, so it ends at the first fault of naming or the first literal
that cannot be written down.
-/

namespace CaseScript

open Doc

/-- How a draft is given up: with errors to report, or because of a newline in a text or a literal
that cannot be written down. -/
inductive Refusal where
  | compile (errors : List Diagnostic)
  | newline
  | oversized (value : Literal)

namespace Finding

/-- How a draft is given up at a finding. -/
def refusal? : Finding → Option Refusal
  | fault cause => some (.compile [cause.diagnostic])
  | warning _ => none
  | literal value => if value.fits then none else some (.oversized value)

theorem findSome?_refusal?_eq_none_iff {findings : List Finding} :
    findings.findSome? refusal? = none ↔ ∀ finding ∈ findings, finding.Passes := by
  rw [List.findSome?_eq_none_iff]
  refine forall_congr' fun finding => imp_congr_right fun _ => ?_
  cases finding with
  | fault cause => simp [refusal?, Passes]
  | warning diagnostic => simp [refusal?, Passes]
  | literal value => cases h : value.fits <;> simp [refusal?, Passes, h]

theorem passes_of_fits {findings : List Finding} (hfits : ∀ finding ∈ findings, finding.Fits)
    (hfaults : findings.filterMap fault? = []) : ∀ finding ∈ findings, finding.Passes :=
  fun finding hmem =>
    passes_iff.mpr ⟨hfits finding hmem, List.filterMap_eq_nil_iff.mp hfaults finding hmem⟩

/-- Where all literals can be written down, it is the first fault that a draft is given up at. -/
theorem findSome?_refusal?_of_fault {before after : List Finding} {cause : NamingFault}
    (hfits : ∀ finding ∈ before, finding.Fits) (hfaults : before.filterMap fault? = []) :
    (before ++ fault cause :: after).findSome? refusal? = some (.compile [cause.diagnostic]) := by
  rw [List.findSome?_append,
    findSome?_refusal?_eq_none_iff.mpr (passes_of_fits hfits hfaults)]
  rfl

end Finding

namespace Script

/-- A fault of naming is reported as one error. -/
def naming {α : Type} (result : Except NamingFault α) : Except Refusal α :=
  result.mapError fun fault => .compile [fault.diagnostic]

/-- Puts a part into a draft. -/
def stand (part : Doc) : Except Refusal Doc := if part.unbroken then .ok part else .error .newline

/-- Writes a literal down. -/
def put (value : Literal) : Except Refusal Doc :=
  if value.fits then stand (text value.written) else .error (.oversized value)

def standAll (parts : List Doc) : Except Refusal (List Doc) := parts.mapM stand

end Script

open Script

/-! ## Drafts -/

/-- Do parentheses go around a function of this form where it is called? -/
def Expr.needsParens : Expr → Bool
  | lambda _ _ | binop _ _ _ => true
  | _ => false

namespace Pattern

mutual

/-- Walks a pattern and writes down the places that are looked at. -/
def draft (shadowing : Bool) (ref : Ref String) (trail : Trail) (lowering : Lowering String) :
    Pattern → Except Refusal (Lowering String)
  | literal value => do
    let _ ← put value
    naming (lowering.meet shadowing (.check (.equals ref value)))
  | var name => naming (lowering.meet shadowing (.bind ⟨name, ref, trail⟩))
  | wildcard => return lowering
  | list items => do
    let lowering ← naming (lowering.meet shadowing (.check (.length ref items.length false)))
    itemDrafts shadowing ref (trail.field "items") 0 lowering items
  | listTail items tail => do
    let lowering ← naming (lowering.meet shadowing (.check (.length ref items.length true)))
    let lowering ← itemDrafts shadowing ref (trail.field "items") 0 lowering items
    let _ ← stand ((Ref.rest ref items.length).doc text)
    naming (lowering.meet shadowing (.bind ⟨tail, .rest ref items.length, trail.field "tail"⟩))

def itemDrafts (shadowing : Bool) (ref : Ref String) (trail : Trail) (index : Nat)
    (lowering : Lowering String) : List Pattern → Except Refusal (Lowering String)
  | [] => return lowering
  | p :: rest => do
    let _ ← stand ((Ref.item ref index).doc text)
    let lowering ← draft shadowing (.item ref index) (trail.item index) lowering p
    itemDrafts shadowing ref trail (index + 1) lowering rest

end

end Pattern

namespace Script

/-- The identifiers of parameters, each written down before the next one is looked at. -/
def draftParams (trail : Trail) (before : List Text) : List Text → Except Refusal (List String)
  | [] => return []
  | param :: rest => do
    let place := trail.entry "params" before.length
    match before.idxOf? param with
    | some first => naming (.error (.repeatedParameter param (trail.entry "params" first) place))
    | none => do
      let identifier ← naming (Name.identifierAt place param)
      let _ ← stand (text identifier)
      return identifier :: (← draftParams trail (before ++ [param]) rest)

mutual

/-- The document of the script for an expression at `trail`, written part by part. -/
def draft (shadowing : Bool) (trail : Trail) : Expr → Except Refusal Doc
  | .literal value => put value
  | .var name => do stand (text (← naming (Name.identifierAt trail name)))
  | .list items => do stand (wrapped "[" (← drafts shadowing (trail.field "items") 0 items) "]")
  | .binop op left right => do
    let left ← draft shadowing (trail.field "left") left
    let op ← naming (op.operatorAt (trail.field "op"))
    let mark ← stand (text (" " ++ op ++ " "))
    let right ← draft shadowing (trail.field "right") right
    stand (concat [left, mark, right])
  | .letIn name value body => do
    let identifier ← naming (Name.identifierAt (trail.field "name") name)
    let value ← draft shadowing (trail.field "value") value
    let declared ← stand (declaration identifier value)
    let body ← draft shadowing (trail.field "body") body
    let given ← stand (giving body)
    stand (immediate [declared, given])
  | .apply function args => do
    let callee ← draft shadowing (trail.field "function") function
    let callee ← stand (parenthesized function.needsParens callee)
    let args ← drafts shadowing (trail.field "args") 0 args
    stand (callee ++ wrapped "(" args ")")
  | .lambda params body => do
    let identifiers ← draftParams trail [] params
    let body ← draft shadowing (trail.field "body") body
    stand (arrowDoc identifiers body)
  | .cases subject clauses => do
    let _ ← stand (text Name.subject)
    let subject ← draft shadowing (trail.field "subject") subject
    let declared ← stand (declaration Name.subject subject)
    let stmts ← clauseDrafts shadowing trail 0 clauses
    stand (immediate (declared :: stmts))

def drafts (shadowing : Bool) (trail : Trail) (index : Nat) :
    List Expr → Except Refusal (List Doc)
  | [] => return []
  | item :: rest => do
    let item ← draft shadowing (trail.item index) item
    return item :: (← drafts shadowing trail (index + 1) rest)

/-- The documents of the statements for the clauses from `index` on. -/
def clauseDrafts (shadowing : Bool) (trail : Trail) (index : Nat) :
    List Clause → Except Refusal (List Doc)
  | [] => standAll [failure]
  | ⟨pattern, body⟩ :: rest => do
    let place := Decision.clause trail index
    let lowering ← pattern.draft shadowing (.subject Name.subject) (place.field "pattern") {}
    let declared ← standAll (Stmt.docs (declarations lowering))
    let body ← draft shadowing (place.field "body") body
    let given ← stand (giving body)
    if lowering.isCatchAll then return declared ++ [given]
    else do
      let tests := lowering.checks.map (·.doc text)
      let guarded ← stand (conditional tests (declared ++ [given]))
      return guarded :: (← clauseDrafts shadowing trail (index + 1) rest)

end

/-! ## Emissions and their drafts -/

namespace Emission

open Finding (refusal? ofMentions)

variable {α β γ δ : Type} {x : Emission α} {R : α → β → Prop} {S : γ → δ → Prop}
  {first second : List Finding}

/-- Does a draft end at the first of some findings that it has to be given up at, or with a result
that belongs to that of an emission if there is none? -/
def DraftedBy (x : Emission α) (findings : List Finding) (R : α → β → Prop)
    (draft : Except Refusal β) : Prop :=
  match findings.findSome? refusal?, draft with
  | none, .ok b => ∃ a, x.result = .ok a ∧ R a b
  | some refusal, .error other => other = refusal
  | _, _ => False

theorem draftedBy_naming {result : Except NamingFault α}
    (hreports : (ofExcept result).Reports first) (hfits : ∀ finding ∈ first, finding.Fits) :
    (ofExcept result).DraftedBy first Eq (naming result) := by
  cases result with
  | ok a =>
    have hnone := Finding.findSome?_refusal?_eq_none_iff.mpr
      (Finding.passes_of_fits hfits hreports.1)
    unfold DraftedBy
    rw [hnone]
    exact ⟨a, rfl, rfl⟩
  | error cause =>
    obtain ⟨before, after, rfl, hnone, -⟩ := hreports
    have hfirst : (before ++ .fault cause :: after).findSome? refusal? =
        some (.compile [cause.diagnostic]) :=
      Finding.findSome?_refusal?_of_fault (List.forall_mem_append.mp hfits).1 hnone
    unfold DraftedBy
    rw [hfirst]
    rfl

theorem draftedBy_stand {a : α} {part : Doc} {R : α → Doc → Prop} (hpart : part.unbroken = true)
    (h : R a part) : (pure a : Emission α).DraftedBy [] R (stand part) := by
  unfold stand
  rw [if_pos hpart]
  exact ⟨a, rfl, h⟩

theorem DraftedBy.eq_error_iff {draft : Except Refusal β} (h : x.DraftedBy first R draft)
    {refusal : Refusal} : draft = .error refusal ↔ first.findSome? refusal? = some refusal := by
  unfold DraftedBy at h
  cases hfirst : first.findSome? refusal? with
  | none =>
    rw [hfirst] at h
    cases draft with
    | error other => exact h.elim
    | ok b => simp
  | some other =>
    rw [hfirst] at h
    cases draft with
    | error last =>
      obtain rfl : last = other := h
      simp
    | ok b => exact h.elim

theorem DraftedBy.exists_ok_iff {draft : Except Refusal β} (h : x.DraftedBy first R draft) :
    (∃ b, draft = .ok b) ↔ ∀ finding ∈ first, finding.Passes := by
  rw [← Finding.findSome?_refusal?_eq_none_iff, Option.eq_none_iff_forall_ne_some]
  have hends : ∀ refusal, first.findSome? refusal? ≠ some refusal ↔ draft ≠ .error refusal :=
    fun refusal => not_congr h.eq_error_iff.symm
  simp only [hends]
  cases draft <;> simp

theorem DraftedBy.result_of_ok {b : β} (h : x.DraftedBy first R (.ok b)) :
    ∃ a, x.result = .ok a ∧ R a b := by
  unfold DraftedBy at h
  split at h
  · rename_i hdraft
    cases hdraft
    exact h
  · rename_i hdraft
    cases hdraft
  · exact h.elim

theorem DraftedBy.bind {draft : Except Refusal β} (h : x.DraftedBy first R draft)
    {f : α → Emission γ} {g : β → Except Refusal δ}
    (hnext : ∀ a b, x.result = .ok a → R a b → (f a).DraftedBy second S (g b)) :
    (x >>= f).DraftedBy (first ++ second) S (draft >>= g) := by
  unfold DraftedBy at h ⊢
  rw [List.findSome?_append]
  cases hfirst : first.findSome? refusal? with
  | none =>
    rw [hfirst] at h
    cases draft with
    | error refusal => exact h.elim
    | ok b =>
      obtain ⟨a, hresult, hR⟩ := h
      have hbind : (x >>= f).result = (f a).result := by
        obtain ⟨decisions, result⟩ := x
        subst hresult
        rfl
      have hthen := hnext a b hresult hR
      unfold DraftedBy at hthen
      rw [hbind]
      exact hthen
  | some refusal =>
    rw [hfirst] at h
    cases draft with
    | error other => exact h
    | ok b => exact h.elim

/-- The last step of a draft adds no findings. -/
theorem DraftedBy.last {draft : Except Refusal β} (h : x.DraftedBy first R draft)
    {f : α → Emission γ} {g : β → Except Refusal δ}
    (hnext : ∀ a b, x.result = .ok a → R a b → (f a).DraftedBy [] S (g b)) :
    (x >>= f).DraftedBy first S (draft >>= g) := by
  have hbind := h.bind hnext
  rwa [List.append_nil] at hbind

theorem DraftedBy.map {draft : Except Refusal β} (h : x.DraftedBy first R draft) {f : β → δ}
    {S : α → δ → Prop} (hmap : ∀ a b, R a b → S a (f b)) :
    x.DraftedBy first S (draft.map f) := by
  unfold DraftedBy at h ⊢
  cases hfirst : first.findSome? refusal? with
  | none =>
    rw [hfirst] at h
    cases draft with
    | error refusal => exact h.elim
    | ok b =>
      obtain ⟨a, hresult, hR⟩ := h
      exact ⟨a, hresult, hmap a b hR⟩
  | some refusal =>
    rw [hfirst] at h
    cases draft with
    | error other => exact h
    | ok b => exact h.elim

/-- A part with no newline in its texts can be put into the draft at any time. -/
theorem DraftedBy.stand {part : Doc} (hpart : part.unbroken = true) {g : Doc → Except Refusal β}
    (h : x.DraftedBy first R (g part)) : x.DraftedBy first R (stand part >>= g) := by
  unfold Script.stand
  rw [if_pos hpart]
  exact h

/-- A literal is written down, or the draft is given up at it. -/
theorem draftedBy_put {a : α} {value : Literal} {R : α → Doc → Prop}
    (h : R a (text value.written)) :
    (pure a : Emission α).DraftedBy [.literal value] R (put value) := by
  have hline : (text value.written).unbroken = true :=
    unbroken_text.mpr value.newline_notMem_written
  unfold DraftedBy put
  rw [List.findSome?_singleton]
  cases hfits : value.fits with
  | true =>
    have hpasses : refusal? (.literal value) = none := if_pos hfits
    rw [hpasses, if_pos rfl, Script.stand, if_pos hline]
    exact ⟨a, rfl, h⟩
  | false =>
    have hstops : refusal? (.literal value) = some (.oversized value) :=
      if_neg (Bool.not_eq_true _ ▸ hfits)
    rw [hstops, if_neg Bool.false_ne_true]

/-- A warning is nothing that a draft is given up at. -/
theorem DraftedBy.warned {draft : Except Refusal β} (trail : Trail) (index dropped : Nat)
    (h : x.DraftedBy [] R draft) : x.DraftedBy (Finding.ofDropped trail index dropped) R draft := by
  unfold DraftedBy
  rw [Finding.findSome?_refusal?_eq_none_iff.mpr (Finding.passes_ofDropped trail index dropped)]
  exact h

theorem standAll_eq {parts : List Doc} (h : ∀ part ∈ parts, part.unbroken = true) :
    standAll parts = .ok parts := by
  unfold standAll
  induction parts with
  | nil => rfl
  | cons part rest ih =>
    rw [List.forall_mem_cons] at h
    have hpart : Script.stand part = .ok part := if_pos h.1
    rw [List.mapM_cons, hpart, ih h.2]
    rfl

theorem DraftedBy.decide {f : Unit → Emission α} {draft : Except Refusal β} (decision : Decision)
    (h : (f ()).DraftedBy first R draft) : (decide decision >>= f).DraftedBy first R draft := h

end Emission

end Script

open Script.Emission

namespace Finding

theorem ofMentions_append (shadowing : Bool) (before : List (Text × Trail))
    (first second : List Mention) :
    ofMentions shadowing before (first ++ second) =
      ofMentions shadowing before first ++
        ofMentions shadowing (before ++ first.filterMap Mention.site?) second := by
  induction first generalizing before with
  | nil => rw [List.nil_append, ofMentions, List.nil_append, List.filterMap_nil, List.append_nil]
  | cons mention rest ih =>
    cases mention with
    | literal value =>
      rw [List.cons_append, ofMentions, ofMentions, ih, List.cons_append]
      rfl
    | name bound place =>
      rw [List.cons_append, ofMentions, ofMentions, ih, List.append_assoc, List.append_assoc]
      rfl

end Finding

/-- What is bound after some demands are met, told by the places. -/
theorem Lowering.sites_foldlM {σ : Type} {lowering result : Lowering σ}
    {before : List (Text × Trail)} {demands : List (Demand σ)}
    (hbefore : before = lowering.bindings.map Pattern.site)
    (h : demands.foldlM (Lowering.meet false) lowering = .ok result) :
    before ++ (demands.filterMap Demand.mention?).filterMap Mention.site? =
      result.bindings.map Pattern.site := by
  induction demands generalizing lowering before with
  | nil =>
    cases h
    rw [hbefore, List.filterMap_nil, List.filterMap_nil, List.append_nil]
  | cons demand rest ih =>
    rw [List.foldlM_cons] at h
    obtain ⟨next, hnext, hrest⟩ := except_bind_eq_ok.mp h
    rw [← ih (sites_meet hbefore hnext) hrest]
    cases demand with
    | check check =>
      cases check <;>
        simp [List.filterMap_cons, Demand.mention?, Demand.binding?, Mention.site?]
    | bind binding => simp [Demand.mention?, Demand.binding?, Mention.site?, Pattern.site]

namespace Pattern

open Finding (ofMentions)

variable {shadowing : Bool}

/-- A check is always met. -/
theorem draftedBy_check {lowering : Lowering String} {check : Check String}
    {rest : List (Demand String)} {findings : List Finding}
    {g : Lowering String → Except Refusal (Lowering String)}
    (h : (ofExcept (rest.foldlM (Lowering.meet shadowing)
      { lowering with checks := lowering.checks ++ [check] })).DraftedBy findings Eq
        (g { lowering with checks := lowering.checks ++ [check] })) :
    (ofExcept ((.check check :: rest).foldlM (Lowering.meet shadowing) lowering)).DraftedBy findings
      Eq (naming (lowering.meet shadowing (.check check)) >>= g) := h

mutual

theorem draftedBy_draft {ref : Ref String} (href : (ref.doc text).unbroken = true)
    (trail : Trail) {lowering : Lowering String} {before : List (Text × Trail)}
    (hbefore : shadowing = false → before = lowering.bindings.map site) (p : Pattern) :
    (ofExcept ((p.demands ref trail).foldlM (Lowering.meet shadowing) lowering)).DraftedBy
      (ofMentions shadowing before (p.mentions trail)) Eq
        (p.draft shadowing ref trail lowering) := by
  cases p with
  | literal value =>
    rw [draft, mentions]
    have hput : (pure () : Emission Unit).DraftedBy [.literal value] (fun _ _ => True)
        (put value) := draftedBy_put trivial
    have hmet : (ofExcept (lowering.meet shadowing (.check (.equals ref value)))).DraftedBy [] Eq
        (naming (lowering.meet shadowing (.check (.equals ref value)))) := ⟨_, rfl, rfl⟩
    exact hput.last fun _ _ _ _ => hmet
  | var name =>
    rw [demands, List.foldlM_cons, draft, mentions, ofMentions, ofMentions, List.append_nil]
    simp only [List.foldlM_nil, bind_pure]
    exact draftedBy_naming (Lowering.reports_bind ⟨name, ref, trail⟩ hbefore)
      (Finding.holdsOfNames_fits.ofBinding shadowing before name trail)
  | wildcard => exact ⟨lowering, rfl, rfl⟩
  | list items =>
    let next : Lowering String :=
      { lowering with checks := lowering.checks ++ [.length ref items.length false] }
    have hnext : shadowing = false → before = next.bindings.map site := hbefore
    rw [demands, draft]
    exact draftedBy_check (draftedBy_itemDrafts href (trail.field "items") 0 hnext items)
  | listTail items tail =>
    let next : Lowering String :=
      { lowering with checks := lowering.checks ++ [.length ref items.length true] }
    have hnext : shadowing = false → before = next.bindings.map site := hbefore
    rw [demands, draft, mentions, Finding.ofMentions_append]
    refine draftedBy_check ?_
    rw [List.foldlM_append, ofExcept_bind]
    refine (draftedBy_itemDrafts href (trail.field "items") 0 hnext items).bind ?_
    rintro last _ hlast rfl
    have hsites : shadowing = false → before ++
        (itemMentions (trail.field "items") 0 items).filterMap Mention.site? =
          last.bindings.map site := by
      rintro rfl
      rw [← Lowering.sites_foldlM (hnext rfl) hlast, mentions_itemDemands]
    refine .stand (unbroken_rest href items.length) ?_
    rw [List.foldlM_cons, ofMentions, ofMentions, List.append_nil]
    simp only [List.foldlM_nil, bind_pure]
    exact draftedBy_naming
      (Lowering.reports_bind ⟨tail, .rest ref items.length, trail.field "tail"⟩ hsites)
      (Finding.holdsOfNames_fits.ofBinding shadowing _ tail (trail.field "tail"))

theorem draftedBy_itemDrafts {ref : Ref String} (href : (ref.doc text).unbroken = true)
    (trail : Trail) (index : Nat) {lowering : Lowering String} {before : List (Text × Trail)}
    (hbefore : shadowing = false → before = lowering.bindings.map site) (items : List Pattern) :
    (ofExcept ((itemDemands ref trail index items).foldlM (Lowering.meet shadowing)
      lowering)).DraftedBy (ofMentions shadowing before (itemMentions trail index items)) Eq
        (itemDrafts shadowing ref trail index lowering items) := by
  cases items with
  | nil => exact ⟨lowering, rfl, rfl⟩
  | cons p rest =>
    have hitem := unbroken_item href index
    rw [itemDemands, List.foldlM_append, itemDrafts, ofExcept_bind, itemMentions,
      Finding.ofMentions_append]
    refine .stand hitem ?_
    refine (draftedBy_draft hitem (trail.item index) hbefore p).bind ?_
    rintro next _ hnext rfl
    refine draftedBy_itemDrafts href trail (index + 1) ?_ rest
    rintro rfl
    rw [← Lowering.sites_foldlM (hbefore rfl) hnext, mentions_demands]

end

theorem draftedBy_lower (trail : Trail) (p : Pattern) :
    (ofExcept (p.lower shadowing trail Name.subject)).DraftedBy
      (ofMentions shadowing [] (p.mentions trail)) Eq
      (p.draft shadowing (.subject Name.subject) trail {}) := by
  rw [lower_eq_foldlM]
  exact p.draftedBy_draft (by decide) trail fun _ => rfl

end Pattern

namespace Script

theorem draftedBy_identifierAt (trail : Trail) (name : Text) :
    (ofExcept (Name.identifierAt trail name)).DraftedBy (Finding.ofName trail name) Eq
      (naming (Name.identifierAt trail name)) :=
  draftedBy_naming (reports_identifierAt trail name) (Finding.holdsOfNames_fits.ofName trail name)

theorem draftedBy_operatorAt (trail : Trail) (op : Text) :
    (ofExcept (op.operatorAt trail)).DraftedBy (Finding.ofOperator trail op) Eq
      (naming (op.operatorAt trail)) :=
  draftedBy_naming (reports_operatorAt trail op) (Finding.forall_mem_ofOperator fun _ => trivial)

theorem draftedBy_draftParams (trail : Trail) (before params : List Text) :
    (ofExcept (parameters trail before params)).DraftedBy (Finding.ofParams trail before params)
      (fun identifiers drafted => drafted = identifiers ∧ ∀ i ∈ identifiers, '\n' ∉ i.toList)
      (draftParams trail before params) := by
  induction params generalizing before with
  | nil => exact ⟨[], rfl, rfl, List.forall_mem_nil _⟩
  | cons param rest ih =>
    rw [parameters, draftParams, Finding.ofParams]
    cases before.idxOf? param with
    | some first => exact rfl
    | none =>
      dsimp only
      rw [ofExcept_bind]
      refine (draftedBy_identifierAt _ param).bind ?_
      rintro identifier _ hidentifier rfl
      have hline : '\n' ∉ identifier.toList := by
        obtain ⟨hvalid, rfl⟩ := Name.identifierAt_eq_ok.mp hidentifier
        exact Name.newline_notMem_identifier hvalid
      refine .stand (unbroken_text.mpr hline) ?_
      rw [ofExcept_bind]
      refine (ih (before ++ [param])).last ?_
      rintro identifiers _ - ⟨rfl, hlines⟩
      exact ⟨_, rfl, rfl, List.forall_mem_cons.mpr ⟨hline, hlines⟩⟩

/-- Is this the document of a term for an expression, all of whose texts stand on one line? -/
structure Drafted (e : Expr) (term : Term) (doc : Doc) : Prop where
  eq : doc = term.doc
  unbroken : doc.unbroken = true
  parens : e.needsParens = term.needsParens

/-- Are these the right documents, all of whose texts stand on one line? -/
def AllDrafted (docs drafted : List Doc) : Prop :=
  drafted = docs ∧ ∀ doc ∈ drafted, doc.unbroken = true

variable {shadowing : Bool}

mutual

theorem draftedBy_draft (trail : Trail) (e : Expr) :
    (ofExpr shadowing trail e).DraftedBy (e.findings shadowing trail) (Drafted e)
      (draft shadowing trail e) := by
  cases e with
  | literal value =>
    have hline : (text value.written).unbroken = true :=
      unbroken_text.mpr value.newline_notMem_written
    exact draftedBy_put ⟨rfl, hline, rfl⟩
  | var name =>
    rw [ofExpr, draft, Expr.findings]
    refine (draftedBy_identifierAt _ _).last ?_
    rintro identifier _ hidentifier rfl
    obtain ⟨hvalid, rfl⟩ := Name.identifierAt_eq_ok.mp hidentifier
    have hline : (text (Name.identifier name)).unbroken = true :=
      unbroken_text.mpr (Name.newline_notMem_identifier hvalid)
    exact draftedBy_stand hline ⟨rfl, hline, rfl⟩
  | list items =>
    rw [ofExpr, draft, Expr.findings]
    refine (draftedBy_drafts (trail.field "items") 0 items).last ?_
    rintro terms _ - ⟨rfl, hlines⟩
    have hline : (wrapped "[" (Term.docs terms) "]").unbroken = true :=
      unbroken_enclosed (by decide) (by decide) hlines
    exact draftedBy_stand hline ⟨rfl, hline, rfl⟩
  | binop op left right =>
    rw [ofExpr, draft, Expr.findings]
    refine (draftedBy_draft (trail.field "left") left).bind ?_
    rintro leftTerm _ - ⟨rfl, hleft, -⟩
    refine (draftedBy_operatorAt _ _).bind ?_
    rintro operator _ hoperator rfl
    obtain ⟨hvalid, rfl⟩ := operatorAt_eq_ok.mp hoperator
    have hmark : (text (" " ++ op.shown ++ " ")).unbroken = true := by
      rw [unbroken_text]
      simp [Text.newline_notMem_operator hvalid]
    refine .stand hmark ?_
    refine (draftedBy_draft (trail.field "right") right).last ?_
    rintro rightTerm _ - ⟨rfl, hright, -⟩
    have hline : (concat [leftTerm.doc, text (" " ++ op.shown ++ " "), rightTerm.doc]).unbroken =
        true := by
      simp only [concat_cons, concat_nil, unbroken_append, unbroken_empty, and_true]
      exact ⟨hleft, hmark, hright⟩
    exact draftedBy_stand hline ⟨rfl, hline, rfl⟩
  | letIn name value body =>
    rw [ofExpr, draft, Expr.findings]
    refine (draftedBy_identifierAt _ _).bind ?_
    rintro identifier _ hidentifier rfl
    obtain ⟨hvalid, rfl⟩ := Name.identifierAt_eq_ok.mp hidentifier
    refine (draftedBy_draft (trail.field "value") value).bind ?_
    rintro valueTerm _ - ⟨rfl, hvalue, -⟩
    have hdeclared := unbroken_declaration (Name.newline_notMem_identifier hvalid) hvalue
    refine .stand hdeclared ?_
    refine (draftedBy_draft (trail.field "body") body).last ?_
    rintro bodyTerm _ - ⟨rfl, hbody, -⟩
    have hgiven := unbroken_giving hbody
    refine .stand hgiven ?_
    have hline := unbroken_immediate (List.forall_mem_cons.mpr
      ⟨hdeclared, List.forall_mem_singleton.mpr hgiven⟩)
    exact draftedBy_stand hline ⟨rfl, hline, rfl⟩
  | apply function args =>
    rw [ofExpr, draft, Expr.findings]
    refine (draftedBy_draft (trail.field "function") function).bind ?_
    rintro functionTerm _ - ⟨rfl, hfunction, hparens⟩
    rw [hparens]
    have hcallee := unbroken_parenthesized functionTerm.needsParens hfunction
    refine .stand hcallee ?_
    refine (draftedBy_drafts (trail.field "args") 0 args).last ?_
    rintro terms _ - ⟨rfl, hargs⟩
    have hline : (parenthesized functionTerm.needsParens functionTerm.doc ++
        wrapped "(" (Term.docs terms) ")").unbroken = true :=
      unbroken_append.mpr ⟨hcallee, unbroken_enclosed (by decide) (by decide) hargs⟩
    exact draftedBy_stand hline ⟨rfl, hline, rfl⟩
  | lambda params body =>
    rw [ofExpr, draft, Expr.findings]
    refine (draftedBy_draftParams trail [] params).bind ?_
    rintro identifiers _ - ⟨rfl, hparams⟩
    refine (draftedBy_draft (trail.field "body") body).last ?_
    rintro bodyTerm _ - ⟨rfl, hbody, -⟩
    have hline := unbroken_arrowDoc hparams hbody
    exact draftedBy_stand hline ⟨rfl, hline, rfl⟩
  | cases subject clauses =>
    rw [ofExpr, draft, Expr.findings]
    refine .stand (by decide) ?_
    refine (draftedBy_draft (trail.field "subject") subject).bind ?_
    rintro subjectTerm _ - ⟨rfl, hsubject, -⟩
    have hdeclared : (declaration Name.subject subjectTerm.doc).unbroken = true :=
      unbroken_declaration (by decide) hsubject
    refine .stand hdeclared ?_
    refine (draftedBy_clauseDrafts trail 0 clauses).last ?_
    rintro stmts _ - ⟨rfl, hstmts⟩
    have hline := unbroken_immediate (List.forall_mem_cons.mpr ⟨hdeclared, hstmts⟩)
    exact draftedBy_stand hline ⟨rfl, hline, rfl⟩

theorem draftedBy_drafts (trail : Trail) (index : Nat) (items : List Expr) :
    (ofItems shadowing trail index items).DraftedBy
      (Expr.itemFindings shadowing trail index items) (fun terms => AllDrafted (Term.docs terms))
      (drafts shadowing trail index items) := by
  cases items with
  | nil => exact ⟨[], rfl, rfl, List.forall_mem_nil _⟩
  | cons item rest =>
    rw [ofItems, drafts, Expr.itemFindings]
    refine (draftedBy_draft (trail.item index) item).bind ?_
    rintro term _ - ⟨rfl, hterm, -⟩
    refine (draftedBy_drafts trail (index + 1) rest).last ?_
    rintro terms _ - ⟨rfl, hterms⟩
    exact ⟨_, rfl, rfl, List.forall_mem_cons.mpr ⟨hterm, hterms⟩⟩

theorem draftedBy_clauseDrafts (trail : Trail) (index : Nat) (clauses : List Clause) :
    (ofClauses shadowing trail index clauses).DraftedBy
      (Expr.clauseFindings shadowing trail index clauses)
      (fun stmts => AllDrafted (Stmt.docs stmts)) (clauseDrafts shadowing trail index clauses) := by
  cases clauses with
  | nil =>
    rw [ofClauses, clauseDrafts]
    have hline : ∀ part ∈ [failure], part.unbroken = true :=
      List.forall_mem_singleton.mpr unbroken_failure
    rw [standAll_eq hline]
    exact ⟨_, rfl, rfl, hline⟩
  | cons clause rest =>
    obtain ⟨pattern, body⟩ := clause
    rw [ofClauses, clauseDrafts, Expr.clauseFindings]
    refine (pattern.draftedBy_lower _).bind ?_
    rintro lowering _ hlowering rfl
    have htotal : lowering.isCatchAll = pattern.catchesAll := isCatchAll_lower hlowering
    have hsubject : '\n' ∉ Name.subject.toList := by decide
    have hdeclared := unbroken_declarations hsubject hlowering
    have hchecks := unbroken_checks hsubject hlowering
    rw [standAll_eq hdeclared]
    refine (draftedBy_draft _ body).bind ?_
    rintro bodyTerm _ - ⟨rfl, hbody, -⟩
    have hgiven := unbroken_giving hbody
    refine .stand hgiven ?_
    have hdocs : Stmt.docs (declarations lowering ++ [.give bodyTerm]) =
        Stmt.docs (declarations lowering) ++ [giving bodyTerm.doc] := Stmt.docs_append _ _
    have hstmts : ∀ doc ∈ Stmt.docs (declarations lowering) ++ [giving bodyTerm.doc],
        doc.unbroken = true :=
      List.forall_mem_append.mpr ⟨hdeclared, List.forall_mem_singleton.mpr hgiven⟩
    by_cases hcatches : lowering.isCatchAll = true
    · rw [if_pos hcatches, if_pos hcatches, if_pos (htotal ▸ hcatches)]
      exact .decide _ (.warned trail index rest.length ⟨_, rfl, hdocs.symm, hstmts⟩)
    · rw [if_neg hcatches, if_neg hcatches, if_neg (htotal ▸ hcatches)]
      have htests : ∀ test ∈ lowering.checks.map (·.doc text), test.unbroken = true :=
        List.forall_mem_map.mpr hchecks
      have hguarded := unbroken_conditional htests hstmts
      refine .decide _ (.stand hguarded ?_)
      refine (draftedBy_clauseDrafts trail (index + 1) rest).last ?_
      rintro stmts _ - ⟨rfl, hrest⟩
      refine ⟨_, rfl, ?_, List.forall_mem_cons.mpr ⟨hguarded, hrest⟩⟩
      rw [Stmt.docs, Stmt.doc, hdocs]

end

end Script

namespace Expr

/-- The text for a tree whose document is written part by part. -/
def draft (settings : Settings) (e : Expr) : Except Refusal String :=
  (Script.draft settings.allowShadowing (.root "expr") e).map (·.render settings.width)

/-- A draft is given up at the first of the findings that it cannot get past, and if there is none,
then there is a draft, and it is the script. -/
theorem draftedBy_emission (settings : Settings) (e : Expr) :
    (e.emission settings).DraftedBy (e.findings settings.allowShadowing (.root "expr"))
      (fun term text => text = term.doc.render settings.width) (e.draft settings) := by
  have h : (Script.ofExpr settings.allowShadowing (.root "expr") e).DraftedBy
      (e.findings settings.allowShadowing (.root "expr")) (Drafted e)
      (Script.draft settings.allowShadowing (.root "expr") e) := draftedBy_draft _ e
  exact h.map fun _ _ hdrafted => hdrafted.eq ▸ rfl

theorem script_of_draft {settings : Settings} {e : Expr} {text : String}
    (h : e.draft settings = .ok text) : e.script settings = .ok text := by
  have hdrafted := e.draftedBy_emission settings
  rw [h] at hdrafted
  obtain ⟨term, hterm, rfl⟩ := hdrafted.result_of_ok
  rw [script, hterm]
  rfl

/-- Where all literals can be written down, nothing but a fault of naming ends a draft, and there is
the same text if there is none. -/
theorem draft_eq_naming_script {settings : Settings} {e : Expr} (h : e.Writable) :
    e.draft settings = Script.naming (e.script settings) := by
  have hdrafted := e.draftedBy_emission settings
  have hreports := e.reports_emission settings
  have hfits : ∀ finding ∈ e.findings settings.allowShadowing (.root "expr"), finding.Fits :=
    fits_findings h
  unfold Emission.Reports at hreports
  cases hscript : e.script settings with
  | error cause =>
    rw [script_eq_error_iff.mp hscript] at hreports
    obtain ⟨before, after, hsplit, hnone, -⟩ := hreports
    rw [hsplit] at hfits hdrafted
    exact hdrafted.eq_error_iff.mpr
      (Finding.findSome?_refusal?_of_fault (List.forall_mem_append.mp hfits).1 hnone)
  | ok text =>
    obtain ⟨term, hterm⟩ := exists_script_iff.mp ⟨text, hscript⟩
    rw [hterm] at hreports
    obtain ⟨drafted, hdraft⟩ :=
      hdrafted.exists_ok_iff.mpr (Finding.passes_of_fits hfits hreports.1)
    rw [script_of_draft hdraft] at hscript
    cases hscript
    exact hdraft

/-- A draft of a literal that cannot be written down is given up. -/
theorem draft_of_not_fits (settings : Settings) {value : Literal} (h : value.fits = false) :
    (literal value).draft settings = .error (.oversized value) := by
  have hput : put value = .error (.oversized value) := if_neg (Bool.eq_false_iff.mp h)
  unfold draft
  rw [Script.draft, hput]
  rfl

end Expr
end CaseScript
