import CaseScript.Proofs.Expr.Encoding
import CaseScript.Proofs.Expr.Recording
import CaseScript.Proofs.Expr.Schema
import CaseScript.Proofs.Json.Path

/-!
# Decoders

A decoder can be called again and again. A call begins with an empty record and raises all errors
that it holds at the end; so it gives a node just if nothing was found wrong. Every faulty item of
a list is reported, at a place of its own.
-/

namespace CaseScript

variable {α : Type}

/-- How a call of a decoder ends. What is returned would be no node if a reading were given up with
nothing in the record. -/
inductive Decoder.Ending (α : Type) where
  | raised (errors : List Diagnostic)
  | returned (node? : Option α)

/-- What is recorded in a decoder stays there until the next call. -/
structure Decoder where
  diagnostics : List Diagnostic := []

namespace Decoder

/-- Reads a whole value. The record alone decides how the call ends. -/
def call (decoder : Decoder) (x : Recording α) : Ending α × Decoder :=
  let decoder := { decoder with diagnostics := [] }
  let (node?, record) := x decoder.diagnostics
  (if record.isEmpty then .returned node? else .raised record,
    { decoder with diagnostics := record })

def expr (decoder : Decoder) (json : Json) : Ending Expr × Decoder :=
  decoder.call (Expr.recording (.root "expr") json)

def pattern (decoder : Decoder) (json : Json) : Ending Pattern × Decoder :=
  decoder.call (Pattern.recording (.root "pattern") json)

/-- The ending of a call that comes to the same end as a reading. -/
def Ending.ofDecoded : Decoded α → Ending α
  | .ok node => .returned (some node)
  | .error faults => .raised (faults.map ShapeFault.diagnostic)

/-- Is a call complete? It raises errors just if it recorded any, and then all of them; each has one
label, and the labels stand from left to right at places of which none is inside another. -/
structure Complete (called : Ending α × Decoder) (x : Decoded α) : Prop where
  ending_eq : called.1 = .ofDecoded x
  raised_iff : (∃ errors, called.1 = .raised errors) ↔ called.2.diagnostics ≠ []
  raised_all : ∀ errors, called.1 = .raised errors → errors = called.2.diagnostics
  returned_node : ∀ node?, called.1 = .returned node? → node? ≠ none
  one_label : ∀ error ∈ called.2.diagnostics, error.labels.length = 1
  left_to_right : ((called.2.diagnostics.flatMap Diagnostic.labels).map Label.trail).Pairwise
    Trail.LeftOf
  unrelated : ((called.2.diagnostics.flatMap Diagnostic.labels).map fun label =>
    label.trail.written.toList).Pairwise fun path other => ¬ path <+: other ∧ ¬ other <+: path

/-- Does the reading of a list at `trail` record what its items record on their own, each at its own
place, one after another? -/
def Collects (trail : Trail) (list : Recording (List α)) (read : Trail → Json → Recording α)
    (values : List Json) : Prop :=
  ∀ record, (list record).2 =
    record ++ values.zipIdx.flatMap fun item => (read (trail.item item.2) item.1).errors

/-! ## Labels -/

theorem labels_of_leads {root : String} (hroot : root ≠ "") {fault : ShapeFault}
    (h : (Trail.root root).Leads fault.trail) : fault.diagnostic.labels = [⟨fault.trail, ""⟩] := by
  obtain ⟨steps, hwritten⟩ := Json.exists_written_of_leads h
  have hne : fault.trail.written ≠ "" := by
    intro hempty
    rw [hempty, Trail.written_root, String.toList_empty] at hwritten
    have hnil := (List.append_eq_nil_iff.mp hwritten.symm).1
    exact hroot (String.toList_injective hnil)
  rw [ShapeFault.diagnostic, Diagnostic.errorAt, if_neg hne]

theorem labels_diagnostics {root : String} (hroot : root ≠ "") {faults : List ShapeFault}
    (h : ∀ fault ∈ faults, (Trail.root root).Leads fault.trail) :
    (faults.map ShapeFault.diagnostic).flatMap Diagnostic.labels =
      faults.map fun fault => ⟨fault.trail, ""⟩ := by
  induction faults with
  | nil => rfl
  | cons fault rest ih =>
    rw [List.forall_mem_cons] at h
    rw [List.map_cons, List.flatMap_cons, labels_of_leads hroot h.1, ih h.2, List.map_cons]
    rfl

/-- A call that comes to the same end as a reading, which never fails without a fault. -/
theorem complete_call {root : String} (hroot : root ≠ "") {r : Recording α} {x : Decoded α}
    {P : Prop} (h : Recording.Records (.root root) r x) (hdecides : x.Decides P)
    (decoder : Decoder) : Complete (decoder.call r) x := by
  have hcall : decoder.call r = (.ofDecoded x, ⟨x.faults.map ShapeFault.diagnostic⟩) := by
    simp only [call, h.run_eq, List.nil_append]
    cases x with
    | ok node => rfl
    | error faults =>
      have hne : faults.map ShapeFault.diagnostic ≠ [] :=
        fun hnil => hdecides.2 (List.map_eq_nil_iff.mp hnil)
      rw [Decoded.faults, if_neg (by simpa using hne), Ending.ofDecoded]
  have hlabels := labels_diagnostics hroot h.inside
  rw [hcall]
  constructor
  · rfl
  · cases x with
    | ok node => simp [Ending.ofDecoded, Decoded.faults]
    | error faults => simpa [Ending.ofDecoded, Decoded.faults] using hdecides.2
  · intro errors herrors
    cases x with
    | ok node => cases herrors
    | error faults =>
      cases herrors
      rfl
  · intro node? hnode
    cases x with
    | ok node =>
      cases hnode
      exact Option.some_ne_none node
    | error faults => cases hnode
  · intro error herror
    obtain ⟨fault, hfault, rfl⟩ := List.mem_map.mp herror
    rw [labels_of_leads hroot (h.inside fault hfault)]
    rfl
  · rw [hlabels, List.map_map]
    exact h.ordered
  · rw [hlabels, List.map_map, List.pairwise_map]
    have hordered := List.pairwise_map.mp h.ordered
    apply hordered.imp
    intro first later hleft
    obtain ⟨list, i, j, hlt, hfirst, hlater⟩ := hleft
    constructor
    · exact Json.not_prefix_of_leads (Nat.ne_of_lt hlt) hfirst hlater
    · exact Json.not_prefix_of_leads (Nat.ne_of_gt hlt) hlater hfirst

/-! ## Lists -/

theorem faults_items {trail : Trail} {read : Trail → Json → Decoded α}
    {list : Nat → List Json → Decoded (List α)} (hnil : ∀ index, list index [] = pure [])
    (hcons : ∀ index value rest, list index (value :: rest) =
      (read (trail.item index) value).cons (list (index + 1) rest))
    (index : Nat) (values : List Json) :
    (list index values).faults =
      (values.zipIdx index).flatMap fun item => (read (trail.item item.2) item.1).faults := by
  induction values generalizing index with
  | nil =>
    rw [hnil]
    rfl
  | cons value rest ih =>
    rw [hcons, Decoded.faults_cons, ih, List.zipIdx_cons, List.flatMap_cons]

/-- The errors of a list are those of its items, since both are the faults of the reading. -/
theorem collects_of_records {trail : Trail} {r : Recording (List α)} {x : Decoded (List α)}
    {recording : Trail → Json → Recording α} {read : Trail → Json → Decoded α} {values : List Json}
    (hlist : ∀ record, (r record).2 = record ++ x.faults.map ShapeFault.diagnostic)
    (hitem : ∀ place value, Recording.Records place (recording place value) (read place value))
    (hfaults : x.faults =
      values.zipIdx.flatMap fun item => (read (trail.item item.2) item.1).faults) :
    Collects trail r recording values := by
  intro record
  rw [hlist, hfaults, List.map_flatMap]
  simp only [(hitem _ _).errors_eq]

/-- Whatever a decoder was called for before, a call raises all errors that it recorded, and returns
a node if there are none. The errors of a list are those that its items have on their own. -/
theorem collects_all_errors (decoder : Decoder) :
    (∀ json, Complete (decoder.expr json) (Expr.decode json)) ∧
      (∀ json, Complete (decoder.pattern json) (Pattern.decode json)) ∧
      ∀ (trail : Trail) (name : String) (fields : List (Text × Json)) (values : List Json),
        Json.lookup name fields = some (.array values) →
        Collects (trail.field name) (Expr.itemsRecording trail name fields) Expr.recording values ∧
          Collects (trail.field name) (Expr.clausesRecording trail name fields) Expr.clauseRecording
            values ∧
          Collects (trail.field name) (Pattern.itemsRecording trail name fields) Pattern.recording
            values := by
  refine ⟨?_, ?_, ?_⟩
  · intro json
    exact complete_call (by decide) (Expr.records_recording _ json) Expr.decides_ofJson decoder
  · intro json
    exact complete_call (by decide) (Pattern.records_recording _ json) Pattern.decides_ofJson
      decoder
  · intro trail name fields values hfound
    have hitems := Expr.records_itemsRecording trail name fields
    have hclauses := Expr.records_clausesRecording trail name fields
    have hpatterns := Pattern.records_itemsRecording trail name fields
    rw [Expr.itemsOfJson_eq, hfound] at hitems
    rw [Expr.clausesOfJson_eq, hfound] at hclauses
    rw [Pattern.itemsOfJson_eq, hfound] at hpatterns
    refine ⟨?_, ?_, ?_⟩
    · apply collects_of_records (fun record => congrArg Prod.snd (hitems.run_eq record))
        Expr.records_recording
      exact faults_items (fun _ => by rw [Expr.listOfJson]) (fun _ _ _ => by rw [Expr.listOfJson]) 0
        values
    · apply collects_of_records (fun record => congrArg Prod.snd (hclauses.run_eq record))
        Expr.records_clauseRecording
      exact faults_items (fun _ => by rw [Expr.clauseListOfJson])
        (fun _ _ _ => by rw [Expr.clauseListOfJson]) 0 values
    · apply collects_of_records (fun record => congrArg Prod.snd (hpatterns.run_eq record))
        Pattern.records_recording
      exact faults_items (fun _ => by rw [Pattern.listOfJson])
        (fun _ _ _ => by rw [Pattern.listOfJson]) 0 values

/-- Three items, of which the first and the last are faulty. -/
def twoFaulty : List Json :=
  [.node "int" [("value", .bool true)], .node "var" [("name", .string (Text.ofString "x"))], .null]

theorem collects_all_errors_twoFaulty :
    let place := (Trail.root "expr").field "items"
    let fields := [(Text.ofString "type", Json.string (Text.ofString "list")),
      (Text.ofString "items", .array twoFaulty)]
    let reused : Decoder := ⟨[.errorAt "E001" "invalid JSON" (.root "expr")]⟩
    Json.lookup "items" fields = some (.array twoFaulty) ∧
      Collects place (Expr.itemsRecording (.root "expr") "items" fields) Expr.recording twoFaulty ∧
      (reused.expr (.object fields)).1 = .raised
        [.errorAt "E003" "field 'value' must be an integer" ((place.item 0).field "value"),
          .errorAt "E003" "expected an object, got NoneType" (place.item 2)] := by
  intro place fields reused
  have hfound : Json.lookup "items" fields = some (.array twoFaulty) := by rfl
  obtain ⟨hexpr, -, hlists⟩ := collects_all_errors reused
  obtain ⟨hitems, -, -⟩ := hlists (.root "expr") "items" fields twoFaulty hfound
  refine ⟨hfound, hitems, ?_⟩
  rw [(hexpr (.object fields)).ending_eq]
  rfl

end Decoder

end CaseScript
