import CaseScript.Proofs.Expr.Encoding
import CaseScript.Proofs.Expr.ShapeFaults
import CaseScript.Proofs.Pattern.Occurrences
import CaseScript.Proofs.Script.Derivation

/-!
# Where diagnostics stand

An emission walks a tree along the same trails along which the tree was read, so the labels of its
faults and warnings lead into the JSON value, to the names and clauses that they speak of. With the
faults of shape, this is so of everything that is reported about a JSON value.
-/

namespace CaseScript

open Script

/-! ## What is found at the places -/

/-- Is this a name, or a variable of this name? -/
def Json.Spells (value : Json) (name : Text) : Prop :=
  value = .string name ∨
    ∃ fields, value = .object fields ∧ Json.Tagged "var" fields ∧
      Json.lookup "name" fields = some (.string name)

/-- Does the path of a place lead to a value that spells the name? -/
def Json.NamedAt (whole : Json) (root : String) (name : Text) (place : Trail) : Prop :=
  ∃ value, whole.at? root place.written = some value ∧ value.Spells name

/-- Do the labels of a fault of naming lead to what the fault speaks of: to an invalid name, to two
places of one pattern in their order, or to two parameters of one function in their order? -/
def NamingFault.PointsInto (whole : Json) (root : String) (fault : NamingFault) : Prop :=
  match fault, fault.diagnostic.labels.map Label.trail with
  | invalidName name _, [place] => Name.isValid name = false ∧ whole.NamedAt root name place
  | boundTwice name _ _, [first, again] =>
    first.written ≠ again.written ∧ whole.NamedAt root name first ∧ whole.NamedAt root name again ∧
      ∃ (place : Trail) (json : Json) (p : Pattern),
        whole.at? root place.written = some json ∧ p.Described json ∧
          [(name, first), (name, again)].Sublist (p.occurrences place)
  | repeatedParameter name _ _, [first, again] =>
    ∃ (place : Trail) (fields : List (Text × Json)) (params : List Text) (i k : Nat),
      whole.at? root place.written = some (.object fields) ∧ Json.Tagged "lambda" fields ∧
        Json.lookup "params" fields = some (.array (params.map .string)) ∧
        i < k ∧ params[i]? = some name ∧ params[k]? = some name ∧
        first = place.entry "params" i ∧ again = place.entry "params" k ∧
        whole.at? root first.written = some (.string name) ∧
        whole.at? root again.written = some (.string name)
  | _, _ => False

/-- Do the labels of a warning lead to a clause and to an earlier clause of the same match? -/
def Diagnostic.PointsAtClauses (whole : Json) (root : String) (warning : Diagnostic) : Prop :=
  ∃ (place : Trail) (fields : List (Text × Json)) (clauses : List Json) (later earlier : Nat),
    whole.at? root place.written = some (.object fields) ∧ Json.Tagged "match" fields ∧
      Json.lookup "clauses" fields = some (.array clauses) ∧ earlier < later ∧
      warning.labels.map Label.trail =
        [place.entry "clauses" later, place.entry "clauses" earlier] ∧
      ∀ index ∈ [later, earlier], ∃ clause, clauses[index]? = some clause ∧
        whole.at? root (place.entry "clauses" index).written = some clause

/-- All that is reported about a JSON value. -/
def Json.diagnostics (settings : Settings) (json : Json) : List Diagnostic :=
  match Expr.decode json with
  | .error faults => faults.map ShapeFault.diagnostic
  | .ok e =>
    (e.emission settings).warnings ++
      match e.script settings with
      | .error fault => [fault.diagnostic]
      | .ok _ => []

theorem NamingFault.pointsInto_invalidName {whole : Json} {root : String} {name : Text}
    {place : Trail} (hwritten : place.written ≠ "") (hinvalid : Name.isValid name = false)
    (h : whole.NamedAt root name place) : (invalidName name place).PointsInto whole root := by
  have hlabels : (invalidName name place).diagnostic.labels.map Label.trail = [place] := by
    simp [diagnostic, Diagnostic.errorAt, hwritten]
  unfold PointsInto
  rw [hlabels]
  exact ⟨hinvalid, h⟩

/-! ## Names in patterns -/

section Patterns

variable {whole : Json} {root : String}

mutual

theorem Pattern.spells_of_mem_occurrences {trail : Trail} {json : Json} {p : Pattern}
    (h : whole.Reaches root trail json) (described : p.Described json) :
    ∀ site ∈ p.occurrences trail,
      ∃ value, whole.Reaches root site.2 value ∧ value.Spells site.1 := by
  intro site hsite
  cases p with
  | literal value => cases hsite
  | var name =>
    rw [occurrences, List.mem_singleton] at hsite
    subst hsite
    cases described with
    | var tagged name_found => exact ⟨_, h, .inr ⟨_, rfl, tagged, name_found⟩⟩
  | wildcard => cases hsite
  | list items =>
    cases described with
    | list tagged items_found described =>
      have hitems := (h.field items_found (by decide)).items
      exact Pattern.spells_of_mem_itemOccurrences hitems described site hsite
  | listTail items tail =>
    cases described with
    | listTail tagged items_found described tail_found =>
      rw [occurrences, List.mem_append, List.mem_singleton] at hsite
      rcases hsite with hsite | rfl
      · have hitems := (h.field items_found (by decide)).items
        exact Pattern.spells_of_mem_itemOccurrences hitems described site hsite
      · exact ⟨_, h.field tail_found (by decide), .inl rfl⟩

theorem Pattern.spells_of_mem_itemOccurrences {trail : Trail} {index : Nat} {values : List Json}
    {items : List Pattern} (h : whole.ItemsReached root trail index values)
    (described : List.Forall₂ Pattern.Described values items) :
    ∀ site ∈ itemOccurrences trail index items,
      ∃ value, whole.Reaches root site.2 value ∧ value.Spells site.1 := by
  intro site hsite
  cases items with
  | nil => cases hsite
  | cons p rest =>
    cases described with
    | cons first_described rest_described =>
      rw [itemOccurrences, List.mem_append] at hsite
      rcases hsite with hsite | hsite
      · exact Pattern.spells_of_mem_occurrences h.head first_described site hsite
      · exact Pattern.spells_of_mem_itemOccurrences h.tail rest_described site hsite

end

theorem Pattern.lower_fault_pointsInto {shadowing : Bool} {trail : Trail} {subject : String}
    {json : Json} {p : Pattern} (hroot : root ≠ "") (h : whole.Reaches root trail json)
    (described : p.Described json) {fault : NamingFault}
    (hlower : p.lower shadowing trail subject = .error fault) : fault.PointsInto whole root := by
  rcases p.lower_eq_error hlower with
    ⟨name, place, hmem, hinvalid, rfl⟩ | ⟨-, name, first, again, hsublist, rfl⟩
  · obtain ⟨value, hreach, hspells⟩ := Pattern.spells_of_mem_occurrences h described _ hmem
    exact NamingFault.pointsInto_invalidName (hreach.written_ne_empty hroot) hinvalid
      ⟨value, hreach.at?_written, hspells⟩
  · obtain ⟨value, hfirst, hspells⟩ :=
      Pattern.spells_of_mem_occurrences h described _ (hsublist.subset List.mem_cons_self)
    obtain ⟨value', hagain, hspells'⟩ :=
      Pattern.spells_of_mem_occurrences h described (name, again) (hsublist.subset (by simp))
    have hne : first ≠ again := by
      have hnodup := (hsublist.map Prod.snd).nodup (p.nodup_places trail)
      simpa using hnodup
    refine ⟨?_, ⟨value, hfirst.at?_written, hspells⟩, ⟨value', hagain.at?_written, hspells'⟩,
      trail, json, p, h.at?_written, described, hsublist⟩
    intro heq
    exact hne (hfirst.trail_eq_of_written hagain (by rw [heq]))

end Patterns

/-! ## Emissions -/

namespace Script

/-- Has every decision the one property, and the fault that ends the emission the other? -/
structure Emission.Keeps {α : Type} (decided : Decision → Prop) (failed : NamingFault → Prop)
    (x : Emission α) : Prop where
  decisions : ∀ decision ∈ x.decisions, decided decision
  fault : ∀ fault, x.result = .error fault → failed fault

namespace Emission

variable {α β : Type} {decided : Decision → Prop} {failed : NamingFault → Prop}

theorem keeps_pure (a : α) : Keeps decided failed (pure a) where
  decisions := by simp
  fault := by simp

theorem keeps_ofExcept {result : Except NamingFault α}
    (h : ∀ fault, result = .error fault → failed fault) :
    Keeps decided failed (ofExcept result) where
  decisions := by simp [ofExcept]
  fault := h

theorem keeps_decide {decision : Decision} (h : decided decision) :
    Keeps decided failed (decide decision) where
  decisions := by simpa [decide] using h
  fault := by simp [decide]

theorem Keeps.bind {x : Emission α} {f : α → Emission β} (hx : Keeps decided failed x)
    (hf : ∀ a, Keeps decided failed (f a)) : Keeps decided failed (x >>= f) := by
  obtain ⟨decisions, result⟩ := x
  cases result with
  | error fault => exact ⟨hx.decisions, fun other h => hx.fault other (by cases h; rfl)⟩
  | ok a =>
    refine ⟨?_, (hf a).fault⟩
    intro decision hmem
    rcases List.mem_append.mp hmem with hmem | hmem
    · exact hx.decisions decision hmem
    · exact (hf a).decisions decision hmem

end Emission

/-- Parameters fail at one that is no valid name, or at one that equals an earlier one. -/
theorem parameters_eq_error {trail : Trail} {before params : List Text} {fault : NamingFault}
    (h : parameters trail before params = .error fault) :
    ∃ name k, (before ++ params)[k]? = some name ∧
      (Name.isValid name = false ∧ fault = .invalidName name (trail.entry "params" k) ∨
        ∃ i, i < k ∧ (before ++ params)[i]? = some name ∧
          fault = .repeatedParameter name (trail.entry "params" i) (trail.entry "params" k)) := by
  induction params generalizing before with
  | nil => cases h
  | cons param rest ih =>
    have hparam : (before ++ param :: rest)[before.length]? = some param := by simp
    rw [parameters] at h
    split at h
    · rename_i first hfirst
      cases h
      obtain ⟨hlt, hget, -⟩ := List.idxOf?_eq_some_iff.mp hfirst
      refine ⟨param, before.length, hparam, .inr ⟨first, hlt, ?_, rfl⟩⟩
      rw [List.getElem?_append_left hlt, List.getElem?_eq_getElem hlt, hget]
    · rcases except_bind_eq_error.mp h with h | ⟨identifier, -, h⟩
      · obtain ⟨hinvalid, rfl⟩ := Name.identifierAt_eq_error h
        exact ⟨param, before.length, hparam, .inl ⟨hinvalid, rfl⟩⟩
      · rcases except_bind_eq_error.mp h with h | ⟨identifiers, -, h⟩
        · have hrest := ih h
          rw [List.append_assoc, List.singleton_append] at hrest
          exact hrest
        · cases h

/-- Does a decision that drops clauses stand for a match with that many clauses? -/
def Decision.PointsInto (whole : Json) (root : String) : Decision → Prop
  | catchAll place index dropped =>
    ∃ fields clauses, whole.Reaches root place (.object fields) ∧ Json.Tagged "match" fields ∧
      Json.lookup "clauses" fields = some (.array clauses) ∧ index + dropped < clauses.length
  | guarded _ _ | failing _ => True

section Places

variable {whole : Json} {root : String}

/-- An emission whose faults and decisions point into the value. -/
abbrev Emission.Placed {α : Type} (whole : Json) (root : String) (x : Emission α) : Prop :=
  x.Keeps (Decision.PointsInto whole root) (NamingFault.PointsInto whole root)

theorem placed_identifierAt (hroot : root ≠ "") {trail : Trail} {value : Json} {name : Text}
    (h : whole.Reaches root trail value) (spells : value.Spells name) :
    (Emission.ofExcept (Name.identifierAt trail name)).Placed whole root := by
  apply Emission.keeps_ofExcept
  intro fault hfault
  obtain ⟨hinvalid, rfl⟩ := Name.identifierAt_eq_error hfault
  exact NamingFault.pointsInto_invalidName (h.written_ne_empty hroot) hinvalid
    ⟨value, h.at?_written, spells⟩

theorem placed_parameters (hroot : root ≠ "") {trail : Trail} {fields : List (Text × Json)}
    {params : List Text} (h : whole.Reaches root trail (.object fields))
    (tagged : Json.Tagged "lambda" fields)
    (params_found : Json.lookup "params" fields = some (.array (params.map .string))) :
    (Emission.ofExcept (parameters trail [] params)).Placed whole root := by
  have hentry : ∀ {k : Nat} {name : Text}, params[k]? = some name →
      whole.Reaches root (trail.entry "params" k) (.string name) := by
    intro k name hname
    exact (h.field params_found (by decide)).item (by rw [List.getElem?_map, hname]; rfl)
  apply Emission.keeps_ofExcept
  intro fault hfault
  obtain ⟨name, k, hname, ⟨hinvalid, rfl⟩ | ⟨i, hlt, hfirst, rfl⟩⟩ := parameters_eq_error hfault
  · have hplaced := placed_identifierAt hroot (hentry hname) (.inl rfl)
    exact hplaced.fault _ (by simp [Emission.ofExcept, Name.identifierAt, hinvalid])
  · exact ⟨trail, fields, params, i, k, h.at?_written, tagged, params_found, hlt, hfirst, hname,
      rfl, rfl, (hentry hfirst).at?_written, (hentry hname).at?_written⟩

theorem placed_lower (hroot : root ≠ "") {shadowing : Bool} {trail : Trail} {subject : String}
    {json : Json} {p : Pattern} (h : whole.Reaches root trail json)
    (described : p.Described json) :
    (Emission.ofExcept (p.lower shadowing trail subject)).Placed whole root := by
  apply Emission.keeps_ofExcept
  intro fault hfault
  exact p.lower_fault_pointsInto hroot h described hfault

mutual

theorem placed_ofExpr (hroot : root ≠ "") {shadowing : Bool} {trail : Trail} {json : Json}
    {e : Expr} (h : whole.Reaches root trail json) (described : e.Described json) :
    (ofExpr shadowing trail e).Placed whole root := by
  cases e with
  | literal value => exact Emission.keeps_pure _
  | var name =>
    cases described with
    | var tagged name_found =>
      apply (placed_identifierAt hroot h (.inr ⟨_, rfl, tagged, name_found⟩)).bind
      exact fun _ => Emission.keeps_pure _
  | list items =>
    cases described with
    | list tagged items_found described =>
      apply (placed_ofItems hroot (h.field items_found (by decide)).items described).bind
      exact fun _ => Emission.keeps_pure _
  | binop op left right =>
    cases described with
    | binop tagged op_found valid left_found left_described right_found right_described =>
      apply (placed_ofExpr hroot (h.field left_found (by decide)) left_described).bind
      intro leftTerm
      have hop : (Emission.ofExcept (op.operatorAt (trail.field "op"))).Placed whole root := by
        apply Emission.keeps_ofExcept
        intro fault hfault
        simp [Text.operatorAt, valid] at hfault
      apply hop.bind
      intro opText
      apply (placed_ofExpr hroot (h.field right_found (by decide)) right_described).bind
      exact fun _ => Emission.keeps_pure _
  | letIn name value body =>
    cases described with
    | letIn tagged name_found value_found value_described body_found body_described =>
      apply (placed_identifierAt hroot (h.field name_found (by decide)) (.inl rfl)).bind
      intro identifier
      apply (placed_ofExpr hroot (h.field value_found (by decide)) value_described).bind
      intro valueTerm
      apply (placed_ofExpr hroot (h.field body_found (by decide)) body_described).bind
      exact fun _ => Emission.keeps_pure _
  | apply function args =>
    cases described with
    | apply tagged function_found function_described args_found described =>
      apply (placed_ofExpr hroot (h.field function_found (by decide)) function_described).bind
      intro functionTerm
      apply (placed_ofItems hroot (h.field args_found (by decide)).items described).bind
      exact fun _ => Emission.keeps_pure _
  | lambda params body =>
    cases described with
    | lambda tagged params_found body_found body_described =>
      apply (placed_parameters hroot h tagged params_found).bind
      intro identifiers
      apply (placed_ofExpr hroot (h.field body_found (by decide)) body_described).bind
      exact fun _ => Emission.keeps_pure _
  | cases subject clauses =>
    cases described with
    | cases tagged subject_found subject_described clauses_found described =>
      apply (placed_ofExpr hroot (h.field subject_found (by decide)) subject_described).bind
      intro subjectTerm
      have hclauses := (h.field clauses_found (by decide)).items
      apply (placed_ofClauses hroot h tagged clauses_found (by omega) hclauses described).bind
      exact fun _ => Emission.keeps_pure _

theorem placed_ofItems (hroot : root ≠ "") {shadowing : Bool} {trail : Trail} {index : Nat}
    {values : List Json} {items : List Expr} (h : whole.ItemsReached root trail index values)
    (described : List.Forall₂ Expr.Described values items) :
    (ofItems shadowing trail index items).Placed whole root := by
  cases items with
  | nil => exact Emission.keeps_pure _
  | cons item rest =>
    cases described with
    | cons item_described rest_described =>
      apply (placed_ofExpr hroot h.head item_described).bind
      intro term
      apply (placed_ofItems hroot h.tail rest_described).bind
      exact fun _ => Emission.keeps_pure _

/-- The clauses from `index` on are the last ones of all the clauses of a match. -/
theorem placed_ofClauses (hroot : root ≠ "") {shadowing : Bool} {trail : Trail}
    {fields : List (Text × Json)} {all : List Json} {index : Nat} {values : List Json}
    {clauses : List Clause} (hmatch : whole.Reaches root trail (.object fields))
    (tagged : Json.Tagged "match" fields)
    (clauses_found : Json.lookup "clauses" fields = some (.array all))
    (hlast : index + values.length = all.length)
    (h : whole.ItemsReached root (trail.field "clauses") index values)
    (described : List.Forall₂ Clause.Described values clauses) :
    (ofClauses shadowing trail index clauses).Placed whole root := by
  cases clauses with
  | nil =>
    apply (Emission.keeps_decide trivial).bind
    exact fun _ => Emission.keeps_pure _
  | cons clause rest =>
    obtain ⟨pattern, body⟩ := clause
    cases described with
    | cons clause_described rest_described =>
      cases clause_described with
      | mk pattern_found pattern_described body_found body_described =>
        apply (placed_lower hroot (h.head.field pattern_found (by decide)) pattern_described).bind
        intro lowering
        apply (placed_ofExpr hroot (h.head.field body_found (by decide)) body_described).bind
        intro bodyTerm
        rw [List.length_cons] at hlast
        split
        · have hlength := rest_described.length_eq
          apply (Emission.keeps_decide ?_).bind
          · exact fun _ => Emission.keeps_pure _
          · exact ⟨fields, all, hmatch, tagged, clauses_found, by omega⟩
        · apply (Emission.keeps_decide trivial).bind
          intro _
          apply (placed_ofClauses hroot hmatch tagged clauses_found (by omega) h.tail
            rest_described).bind
          exact fun _ => Emission.keeps_pure _

end

/-- A dropped clause and the one that every value matches stand in the same list of clauses. -/
theorem Decision.PointsInto.warnings {decision : Decision} (h : decision.PointsInto whole root) :
    ∀ warning ∈ decision.warnings, warning.PointsAtClauses whole root := by
  intro warning hwarning
  cases decision with
  | guarded clause checks => cases hwarning
  | failing place => cases hwarning
  | catchAll place index dropped =>
    obtain ⟨fields, clauses, hreach, tagged, clauses_found, hdropped⟩ := h
    obtain ⟨k, hk, rfl⟩ := List.mem_map.mp hwarning
    rw [List.mem_range] at hk
    refine ⟨place, fields, clauses, index + 1 + k, index, hreach.at?_written, tagged, clauses_found,
      by omega, rfl, ?_⟩
    intro i hi
    have hlt : i < clauses.length := by
      simp only [List.mem_cons, List.not_mem_nil, or_false] at hi
      omega
    have hclause := List.getElem?_eq_getElem hlt
    exact ⟨clauses[i], hclause, ((hreach.field clauses_found (by decide)).item hclause).at?_written⟩

end Places

end Script

/-! ## All that is reported -/

section Reports

variable {whole : Json} {root : String}

/-- Does every label of a diagnostic lead to a value? -/
def Diagnostic.Resolves (whole : Json) (root : String) (diagnostic : Diagnostic) : Prop :=
  ∀ label ∈ diagnostic.labels, ∃ value, whole.at? root label.trail.written = some value

theorem Diagnostic.resolves_of_labels {diagnostic : Diagnostic} {places : List Trail}
    (hlabels : diagnostic.labels.map Label.trail = places)
    (h : ∀ place ∈ places, ∃ value, whole.at? root place.written = some value) :
    diagnostic.Resolves whole root := by
  intro label hlabel
  apply h
  rw [← hlabels]
  exact List.mem_map_of_mem hlabel

theorem ShapeFault.PointsInto.resolves {fault : ShapeFault} (h : fault.PointsInto whole root) :
    fault.diagnostic.Resolves whole root := by
  obtain ⟨hlabels, value, hvalue, -⟩ := h
  apply Diagnostic.resolves_of_labels hlabels
  intro place hplace
  rw [List.mem_singleton.mp hplace]
  exact ⟨value, hvalue⟩

theorem NamingFault.PointsInto.resolves {fault : NamingFault} (h : fault.PointsInto whole root) :
    fault.diagnostic.Resolves whole root := by
  unfold PointsInto at h
  split at h
  · rename_i name _ place hlabels
    obtain ⟨-, value, hvalue, -⟩ := h
    apply Diagnostic.resolves_of_labels hlabels
    intro other hother
    rw [List.mem_singleton.mp hother]
    exact ⟨value, hvalue⟩
  · rename_i name _ _ first again hlabels
    obtain ⟨-, ⟨value, hfirst, -⟩, ⟨value', hagain, -⟩, -⟩ := h
    apply Diagnostic.resolves_of_labels hlabels
    intro place hplace
    rcases List.mem_pair.mp hplace with rfl | rfl
    · exact ⟨value, hfirst⟩
    · exact ⟨value', hagain⟩
  · rename_i name _ _ first again hlabels
    obtain ⟨_, _, _, _, _, -, -, -, -, -, -, -, -, hfirst, hagain⟩ := h
    apply Diagnostic.resolves_of_labels hlabels
    intro place hplace
    rcases List.mem_pair.mp hplace with rfl | rfl
    · exact ⟨_, hfirst⟩
    · exact ⟨_, hagain⟩
  · cases h

theorem Diagnostic.PointsAtClauses.resolves {warning : Diagnostic}
    (h : warning.PointsAtClauses whole root) : warning.Resolves whole root := by
  obtain ⟨place, _, _, later, earlier, -, -, -, -, hlabels, hclauses⟩ := h
  apply Diagnostic.resolves_of_labels hlabels
  intro other hother
  rcases List.mem_pair.mp hother with rfl | rfl
  · obtain ⟨clause, -, hclause⟩ := hclauses later (by simp)
    exact ⟨clause, hclause⟩
  · obtain ⟨clause, -, hclause⟩ := hclauses earlier (by simp)
    exact ⟨clause, hclause⟩

end Reports

theorem Expr.placed_emission {json : Json} {e : Expr} (h : Expr.decode json = .ok e)
    (settings : Settings) : (e.emission settings).Placed json "expr" :=
  Script.placed_ofExpr (by decide) .root (Expr.described_of_ofJson h)

/-- The labels of all faults and warnings about a JSON value lead to what they speak of, and so each
label that is reported leads to a value inside it. -/
theorem Json.diagnostics_point_inside (json : Json) (settings : Settings) :
    (∀ faults, Expr.decode json = .error faults →
        ∀ fault ∈ faults, fault.PointsInto json "expr") ∧
      (∀ e, Expr.decode json = .ok e →
        (∀ fault, e.script settings = .error fault → fault.PointsInto json "expr") ∧
          ∀ warning ∈ (e.emission settings).warnings, warning.PointsAtClauses json "expr") ∧
      ∀ diagnostic ∈ json.diagnostics settings, ∀ label ∈ diagnostic.labels,
        ∃ value, json.at? "expr" label.trail.written = some value := by
  have hshape : ∀ faults, Expr.decode json = .error faults →
      ∀ fault ∈ faults, fault.PointsInto json "expr" := by
    intro faults h
    exact Expr.located_ofJson (by decide) .root faults h
  have hnaming : ∀ e, Expr.decode json = .ok e →
      ∀ fault, e.script settings = .error fault → fault.PointsInto json "expr" := by
    intro e h fault hfault
    apply (Expr.placed_emission h settings).fault
    unfold Expr.script at hfault
    cases hresult : (e.emission settings).result with
    | error other =>
      rw [hresult] at hfault
      cases hfault
      rfl
    | ok term =>
      rw [hresult] at hfault
      cases hfault
  have hwarnings : ∀ e, Expr.decode json = .ok e →
      ∀ warning ∈ (e.emission settings).warnings, warning.PointsAtClauses json "expr" := by
    intro e h warning hwarning
    obtain ⟨decision, hdecision, hmem⟩ := List.mem_flatMap.mp hwarning
    exact ((Expr.placed_emission h settings).decisions decision hdecision).warnings warning hmem
  refine ⟨hshape, fun e h => ⟨hnaming e h, hwarnings e h⟩, ?_⟩
  intro diagnostic hdiagnostic
  unfold Json.diagnostics at hdiagnostic
  split at hdiagnostic
  · rename_i faults h
    obtain ⟨fault, hmem, rfl⟩ := List.mem_map.mp hdiagnostic
    exact (hshape faults h fault hmem).resolves
  · rename_i e h
    rcases List.mem_append.mp hdiagnostic with hwarning | herror
    · exact (hwarnings e h diagnostic hwarning).resolves
    · split at herror
      · rename_i fault hfault
        rw [List.mem_singleton.mp herror]
        exact (hnaming e h fault hfault).resolves
      · cases herror

def Json.variableNode (name : String) : Json :=
  node "var" [("name", .string (Text.ofString name))]

/-- A match whose subject is a match with a clause that is never reached, and whose own pattern
names `y` twice. -/
def Json.twoMatches : Json :=
  let anything := node "wildcard" []
  let clause (pattern body : Json) : Json :=
    .object [(Text.ofString "pattern", pattern), (Text.ofString "body", body)]
  let x := variableNode "x"
  let y := variableNode "y"
  node "match"
    [("subject", node "match"
      [("subject", x), ("clauses", .array [clause anything x, clause anything x])]),
      ("clauses", .array [clause (node "list" [("items", .array [y, y])]) y])]

theorem Json.diagnostics_point_inside_twoMatches :
    ∃ e fault warning, Expr.decode twoMatches = .ok e ∧ e.script {} = .error fault ∧
      (e.emission {}).warnings = [warning] ∧
      fault.PointsInto twoMatches "expr" ∧ warning.PointsAtClauses twoMatches "expr" := by
  let pattern : Pattern := .list [.var (Text.ofString "y"), .var (Text.ofString "y")]
  let x : Expr := .var (Text.ofString "x")
  let e : Expr := .cases (.cases x [⟨.wildcard, x⟩, ⟨.wildcard, x⟩])
    [⟨pattern, .var (Text.ofString "y")⟩]
  let place := (((Trail.root "expr").entry "clauses" 0).field "pattern").field "items"
  have hdecode : Expr.decode twoMatches = .ok e := by rfl
  have hscript : e.script {} =
      .error (.boundTwice (Text.ofString "y") (place.item 0) (place.item 1)) := by rfl
  have hwarnings : (e.emission {}).warnings =
      [Script.Decision.unreachable ((Trail.root "expr").field "subject") 0 1] := by rfl
  obtain ⟨hfault, hwarning⟩ := (Json.diagnostics_point_inside twoMatches {}).2.1 e hdecode
  refine ⟨e, _, _, hdecode, hscript, hwarnings, hfault _ hscript, hwarning _ ?_⟩
  rw [hwarnings]
  exact List.mem_singleton_self _

end CaseScript
