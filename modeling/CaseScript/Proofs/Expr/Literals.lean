import CaseScript.Expr.Source
import CaseScript.Proofs.Expr.Description
import CaseScript.Proofs.Expr.Findings
import CaseScript.Proofs.Json.Reader

/-!
# Literals of trees that are read

All parts of a tree that is read are described by parts of a JSON value. What holds of all parts of
the value, such as that no integer in it has too many digits, is therefore known of the tree: all
literals of a tree that is read from a source text can be written down.
-/

namespace CaseScript

/-- Does a property of JSON values pass on to all their parts? -/
structure Json.Hereditary (Q : Json → Prop) : Prop where
  items {values : List Json} (h : Q (.array values)) : ∀ value ∈ values, Q value
  lookup {fields : List (Text × Json)} {name : String} {value : Json} (h : Q (.object fields))
    (hfound : Json.lookup name fields = some value) : Q value

namespace Json.Hereditary

protected theorem true : Hereditary fun _ => True where
  items _ _ _ := trivial
  lookup _ _ := trivial

theorem bounded : Hereditary Bounded where
  items h := by
    cases h with
    | array hvalues => exact hvalues
  lookup h hfound := by
    cases h with
    | object hfields =>
      obtain ⟨before, after, rfl, -⟩ := List.lookup_eq_some_iff.mp hfound
      exact hfields _ (List.mem_append_right _ List.mem_cons_self)

theorem lookup_items {Q : Json → Prop} (hQ : Hereditary Q) {fields : List (Text × Json)}
    {name : String} {values : List Json} (h : Q (.object fields))
    (hfound : Json.lookup name fields = some (.array values)) : ∀ value ∈ values, Q value :=
  hQ.items (hQ.lookup h hfound)

end Json.Hereditary

/-! ## Parts of a tree -/

section Parts

variable {Q : Json → Prop}

mutual

/-- All parts of a tree that is read are described by parts of the JSON value. -/
theorem Expr.exists_described_of_mem (hQ : Json.Hereditary Q) {json : Json} {e : Expr}
    (hjson : Q json) (h : e.Described json) :
    ∀ s ∈ e.subexprs, ∃ part, Q part ∧ s.Described part := by
  have hself : ∃ part, Q part ∧ e.Described part := ⟨json, hjson, h⟩
  cases e with
  | literal value => exact List.forall_mem_singleton.mpr hself
  | var name => exact List.forall_mem_singleton.mpr hself
  | list items =>
    cases h with
    | list _ items_found described =>
      exact List.forall_mem_cons.mpr ⟨hself,
        Expr.exists_itemsDescribed_of_mem hQ (hQ.lookup_items hjson items_found) described⟩
  | binop op left right =>
    cases h with
    | binop _ _ _ left_found left_described right_found right_described =>
      exact List.forall_mem_cons.mpr ⟨hself, List.forall_mem_append.mpr
        ⟨Expr.exists_described_of_mem hQ (hQ.lookup hjson left_found) left_described,
          Expr.exists_described_of_mem hQ (hQ.lookup hjson right_found) right_described⟩⟩
  | letIn name value body =>
    cases h with
    | letIn _ _ value_found value_described body_found body_described =>
      exact List.forall_mem_cons.mpr ⟨hself, List.forall_mem_append.mpr
        ⟨Expr.exists_described_of_mem hQ (hQ.lookup hjson value_found) value_described,
          Expr.exists_described_of_mem hQ (hQ.lookup hjson body_found) body_described⟩⟩
  | apply function args =>
    cases h with
    | apply _ function_found function_described args_found described =>
      exact List.forall_mem_cons.mpr ⟨hself, List.forall_mem_append.mpr
        ⟨Expr.exists_described_of_mem hQ (hQ.lookup hjson function_found) function_described,
          Expr.exists_itemsDescribed_of_mem hQ (hQ.lookup_items hjson args_found) described⟩⟩
  | lambda params body =>
    cases h with
    | lambda _ _ body_found body_described =>
      exact List.forall_mem_cons.mpr ⟨hself,
        Expr.exists_described_of_mem hQ (hQ.lookup hjson body_found) body_described⟩
  | cases subject clauses =>
    cases h with
    | cases _ subject_found subject_described clauses_found described =>
      exact List.forall_mem_cons.mpr ⟨hself, List.forall_mem_append.mpr
        ⟨Expr.exists_described_of_mem hQ (hQ.lookup hjson subject_found) subject_described,
          Expr.exists_clausesDescribed_of_mem hQ (hQ.lookup_items hjson clauses_found) described⟩⟩

theorem Expr.exists_itemsDescribed_of_mem (hQ : Json.Hereditary Q) {values : List Json}
    {items : List Expr} (hvalues : ∀ value ∈ values, Q value)
    (h : List.Forall₂ (fun json e => Expr.Described json e) values items) :
    ∀ s ∈ Expr.itemSubexprs items, ∃ part, Q part ∧ s.Described part := by
  cases items with
  | nil => exact List.forall_mem_nil _
  | cons item rest =>
    cases h with
    | cons described more =>
      rw [List.forall_mem_cons] at hvalues
      exact List.forall_mem_append.mpr ⟨Expr.exists_described_of_mem hQ hvalues.1 described,
        Expr.exists_itemsDescribed_of_mem hQ hvalues.2 more⟩

theorem Expr.exists_clausesDescribed_of_mem (hQ : Json.Hereditary Q) {values : List Json}
    {clauses : List Clause} (hvalues : ∀ value ∈ values, Q value)
    (h : List.Forall₂ (fun json clause => Clause.Described json clause) values clauses) :
    ∀ s ∈ Expr.clauseSubexprs clauses, ∃ part, Q part ∧ s.Described part := by
  cases clauses with
  | nil => exact List.forall_mem_nil _
  | cons clause rest =>
    obtain ⟨pattern, body⟩ := clause
    cases h with
    | cons described more =>
      rw [List.forall_mem_cons] at hvalues
      cases described with
      | mk _ _ body_found body_described =>
        have hbody := hQ.lookup hvalues.1 body_found
        refine List.forall_mem_append.mpr
          ⟨Expr.exists_described_of_mem hQ hbody body_described, ?_⟩
        split
        · exact List.forall_mem_nil _
        · exact Expr.exists_clausesDescribed_of_mem hQ hvalues.2 more

end

end Parts

/-! ## Literals -/

theorem Literal.fits_of_json {value : Literal} (h : value.json.Bounded) : value.fits = true := by
  cases value with
  | int n =>
    cases h with
    | int hn => rw [fits, hn, Bool.not_false]
  | string text => rfl
  | bool b => rfl

mutual

theorem Pattern.literalsFit_of_described {json : Json} {p : Pattern} (hbounded : json.Bounded)
    (h : p.Described json) : p.LiteralsFit := by
  unfold Pattern.LiteralsFit
  cases p with
  | literal value =>
    cases h with
    | literal _ value_found =>
      exact List.forall_mem_singleton.mpr
        (Literal.fits_of_json (Json.Hereditary.bounded.lookup hbounded value_found))
  | var name => exact List.forall_mem_nil _
  | wildcard => exact List.forall_mem_nil _
  | list items =>
    cases h with
    | list _ items_found described =>
      have hitems := Json.Hereditary.bounded.lookup_items hbounded items_found
      exact Pattern.literalsFit_of_itemsDescribed hitems described
  | listTail items tail =>
    cases h with
    | listTail _ items_found described _ =>
      have hitems := Json.Hereditary.bounded.lookup_items hbounded items_found
      exact Pattern.literalsFit_of_itemsDescribed hitems described

theorem Pattern.literalsFit_of_itemsDescribed {values : List Json} {items : List Pattern}
    (hbounded : ∀ value ∈ values, value.Bounded)
    (h : List.Forall₂ (fun json p => Pattern.Described json p) values items) :
    ∀ value ∈ Pattern.itemLiterals items, value.fits = true := by
  cases items with
  | nil => exact List.forall_mem_nil _
  | cons p rest =>
    cases h with
    | cons described more =>
      rw [List.forall_mem_cons] at hbounded
      exact List.forall_mem_append.mpr ⟨Pattern.literalsFit_of_described hbounded.1 described,
        Pattern.literalsFit_of_itemsDescribed hbounded.2 more⟩

end

theorem Pattern.literalsFit_of_clausesDescribed {values : List Json} {clauses : List Clause}
    (hbounded : ∀ value ∈ values, value.Bounded)
    (h : List.Forall₂ (fun json clause => Clause.Described json clause) values clauses) :
    ∀ clause ∈ clauses, clause.pattern.LiteralsFit := by
  induction h with
  | nil => exact List.forall_mem_nil _
  | cons described _ ih =>
    rw [List.forall_mem_cons] at hbounded ⊢
    refine ⟨?_, ih hbounded.2⟩
    cases described with
    | mk pattern_found pattern_described _ _ =>
      have hpattern := Json.Hereditary.bounded.lookup hbounded.1 pattern_found
      exact Pattern.literalsFit_of_described hpattern pattern_described

theorem Script.reached_subset (clauses : List Clause) : reached clauses ⊆ clauses := by
  induction clauses with
  | nil => exact List.Subset.refl _
  | cons clause rest ih =>
    unfold reached
    split
    · exact List.cons_subset_cons clause (List.nil_subset rest)
    · exact List.cons_subset_cons clause ih

theorem Expr.writable_of_described {json : Json} {e : Expr} (hbounded : json.Bounded)
    (h : e.Described json) : e.Writable := by
  intro s hs
  obtain ⟨part, hpart, hdescribed⟩ := exists_described_of_mem .bounded hbounded h s hs
  cases hdescribed with
  | literal _ value_found =>
    exact Literal.fits_of_json (Json.Hereditary.bounded.lookup hpart value_found)
  | cases _ _ _ clauses_found described =>
    have hvalues := Json.Hereditary.bounded.lookup_items hpart clauses_found
    exact fun clause hclause => Pattern.literalsFit_of_clausesDescribed hvalues described clause
      (Script.reached_subset _ hclause)
  | _ => trivial

/-- A tree that is read from a text can be written down again. -/
theorem Expr.writable_of_ofSource {text : String} {e : Expr} (h : Expr.ofSource text = .ok e) :
    e.Writable := by
  unfold Expr.ofSource at h
  split at h
  · cases h
  · cases h
  · rename_i json hparse
    have hdecode : Expr.decode json = .ok e := by
      cases hdecoded : Expr.decode json with
      | error faults =>
        rw [hdecoded] at h
        cases h
      | ok other =>
        rw [hdecoded] at h
        cases h
        rfl
    exact Expr.writable_of_described (Json.bounded_of_parse hparse)
      (Expr.described_of_ofJson hdecode)

end CaseScript
