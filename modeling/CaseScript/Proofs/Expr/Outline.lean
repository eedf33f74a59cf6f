import CaseScript.Proofs.Expr.Listing
import Mathlib.Data.String.Basic

/-!
# Outlines of expressions

The listing of an outline is a tree of lines. This tree determines the expression whose outline is
listed, and since the indented lines determine the tree, they determine the expression too.
-/

namespace CaseScript

open Text (IsControlFree)

/-! ## Listings of outlines -/

namespace Outline

mutual

def listing : Outline → Listing
  | ⟨label, fields⟩ => .node label (fieldListings fields)

def fieldListings : List (String × OutlineValue) → List Listing
  | [] => []
  | (name, value) :: rest => valueListing name value :: fieldListings rest

def valueListing (name : String) : OutlineValue → Listing
  | .int value => .node (name ++ ": " ++ toString value) []
  | .text value => .node (name ++ ": " ++ Text.quoted value) []
  | .bool value => .node (name ++ ": " ++ boolWord value) []
  | .texts values => .node (name ++ ": " ++ Text.quotedList values) []
  | .node value => .node (name ++ ":") [listing value]
  | .nodes values =>
    if values.isEmpty then .node (name ++ ": []") [] else .node (name ++ ":") (listings values)

def listings : List Outline → List Listing
  | [] => []
  | outline :: rest => listing outline :: listings rest

end

mutual

theorem lines_listing (outline : Outline) (depth : Nat) :
    outline.listing.lines depth = outline.lines depth := by
  cases outline with
  | mk label fields => rw [listing, Listing.lines, lines, lines_fieldListings fields]

theorem lines_fieldListings (fields : List (String × OutlineValue)) (depth : Nat) :
    Listing.linesOfAll depth (fieldListings fields) = fieldLines depth fields := by
  cases fields with
  | nil => rfl
  | cons field rest =>
    rw [fieldListings, Listing.linesOfAll, fieldLines, lines_valueListing,
      lines_fieldListings rest]

theorem lines_valueListing (name : String) (value : OutlineValue) (depth : Nat) :
    (valueListing name value).lines depth = valueLines depth name value := by
  cases value with
  | int value => rfl
  | text value => rfl
  | bool value => rfl
  | texts values => rfl
  | node value =>
    rw [valueListing, Listing.lines, Listing.linesOfAll, Listing.linesOfAll, valueLines,
      lines_listing value, List.append_nil]
  | nodes values =>
    rw [valueListing, valueLines]
    split
    · rfl
    · rw [Listing.lines, linesOfAll_listings values]

theorem linesOfAll_listings (outlines : List Outline) (depth : Nat) :
    Listing.linesOfAll depth (listings outlines) = linesOfAll depth outlines := by
  cases outlines with
  | nil => rfl
  | cons outline rest =>
    rw [listings, Listing.linesOfAll, linesOfAll, lines_listing outline, linesOfAll_listings rest]

end

/-! ## Lines of fields -/

section

variable {name : String}

theorem scalar_inj {s s' : String} :
    Listing.node (name ++ ": " ++ s) [] = .node (name ++ ": " ++ s') [] ↔ s = s' := by
  constructor
  · intro h
    have hline := congrArg String.toList (Listing.node.inj h).1
    simp only [String.toList_append] at hline
    exact String.toList_inj.mp (List.append_cancel_left hline)
  · rintro rfl
    rfl

theorem int_inj {n n' : Int} :
    valueListing name (.int n) = valueListing name (.int n') ↔ n = n' :=
  scalar_inj.trans ⟨Text.toString_int_injective, congrArg toString⟩

theorem text_inj {t t' : Text} :
    valueListing name (.text t) = valueListing name (.text t') ↔ t = t' :=
  scalar_inj.trans ⟨Text.quoted_injective, congrArg Text.quoted⟩

theorem bool_inj {b b' : Bool} :
    valueListing name (.bool b) = valueListing name (.bool b') ↔ b = b' :=
  scalar_inj.trans (by cases b <;> cases b' <;> decide)

theorem texts_inj {ts ts' : List Text} :
    valueListing name (.texts ts) = valueListing name (.texts ts') ↔ ts = ts' :=
  scalar_inj.trans ⟨Text.quotedList_injective, congrArg Text.quotedList⟩

theorem node_inj {o o' : Outline} :
    valueListing name (.node o) = valueListing name (.node o') ↔ o.listing = o'.listing := by
  simp [valueListing]

theorem nodes_inj {os os' : List Outline} :
    valueListing name (.nodes os) = valueListing name (.nodes os') ↔
      listings os = listings os' := by
  cases os <;> cases os' <;> simp [valueListing, listings]

end

end Outline

/-! ## Expressions -/

namespace Outline

/-- The labels of literals tell their kinds apart. -/
def TellsKinds (label : Literal → String) : Prop :=
  ∀ n t b, label (.int n) ≠ label (.string t) ∧ label (.int n) ≠ label (.bool b) ∧
    label (.string t) ≠ label (.bool b)

theorem eq_of_literal {label : Literal → String} (hlabel : TellsKinds label)
    {value value' : Literal}
    (h : (Outline.mk (label value) [("value", value.outlineValue)]).listing =
      (Outline.mk (label value') [("value", value'.outlineValue)]).listing) : value = value' := by
  obtain ⟨hlabels, hfields⟩ := Listing.node.inj h
  have hvalue := (List.cons.inj hfields).1
  cases value with
  | int n =>
    cases value' with
    | int n' => rw [int_inj.mp hvalue]
    | string t' => exact absurd hlabels (hlabel n t' true).1
    | bool b' => exact absurd hlabels (hlabel n [] b').2.1
  | string t =>
    cases value' with
    | int n' => exact absurd hlabels.symm (hlabel n' t true).1
    | string t' => rw [text_inj.mp hvalue]
    | bool b' => exact absurd hlabels (hlabel 0 t b').2.2
  | bool b =>
    cases value' with
    | int n' => exact absurd hlabels.symm (hlabel n' [] b).2.1
    | string t' => exact absurd hlabels.symm (hlabel 0 t' b).2.2
    | bool b' => rw [bool_inj.mp hvalue]

end Outline

open Outline

theorem Pattern.tellsKinds : TellsKinds Pattern.literalLabel := by
  intro n t b
  simp [Pattern.literalLabel]

theorem Expr.tellsKinds : TellsKinds Expr.literalLabel := by
  intro n t b
  simp [Expr.literalLabel]

/-- No other node has the label of a literal. -/
theorem Pattern.literalLabel_ne {label : String}
    (h : label ∉ ["IntPattern", "StringPattern", "BoolPattern"]) (value : Literal) :
    Pattern.literalLabel value ≠ label ∧ label ≠ Pattern.literalLabel value := by
  rw [ne_comm (a := label), and_self]
  rintro rfl
  cases value <;> simp [Pattern.literalLabel] at h

theorem Expr.literalLabel_ne {label : String} (h : label ∉ ["IntLit", "StringLit", "BoolLit"])
    (value : Literal) : Expr.literalLabel value ≠ label ∧ label ≠ Expr.literalLabel value := by
  rw [ne_comm (a := label), and_self]
  rintro rfl
  cases value <;> simp [Expr.literalLabel] at h

mutual

theorem Pattern.eq_of_listing_eq {p p' : Pattern} (h : p.outline.listing = p'.outline.listing) :
    p = p' := by
  cases p with
  | literal value =>
    cases p' with
    | literal value' => rw [eq_of_literal Pattern.tellsKinds h]
    | _ => simp (disch := decide) [Pattern.outline, listing, Pattern.literalLabel_ne] at h
  | var name =>
    cases p' with
    | var name' => rw [text_inj.mp (List.cons.inj (Listing.node.inj h).2).1]
    | _ => simp (disch := decide) [Pattern.outline, listing, Pattern.literalLabel_ne] at h
  | wildcard =>
    cases p' with
    | wildcard => rfl
    | _ => simp (disch := decide) [Pattern.outline, listing, Pattern.literalLabel_ne] at h
  | list items =>
    cases p' with
    | list items' =>
      have hitems := nodes_inj.mp (List.cons.inj (Listing.node.inj h).2).1
      rw [Pattern.eq_of_listings_eq hitems]
    | _ => simp (disch := decide) [Pattern.outline, listing, Pattern.literalLabel_ne] at h
  | listTail items tail =>
    cases p' with
    | listTail items' tail' =>
      obtain ⟨hitems, htail⟩ := List.cons.inj (Listing.node.inj h).2
      rw [Pattern.eq_of_listings_eq (nodes_inj.mp hitems), text_inj.mp (List.cons.inj htail).1]
    | _ => simp (disch := decide) [Pattern.outline, listing, Pattern.literalLabel_ne] at h

theorem Pattern.eq_of_listings_eq {ps ps' : List Pattern}
    (h : listings (Pattern.outlines ps) = listings (Pattern.outlines ps')) : ps = ps' := by
  cases ps with
  | nil =>
    cases ps' with
    | nil => rfl
    | cons p' rest' => cases h
  | cons p rest =>
    cases ps' with
    | nil => cases h
    | cons p' rest' =>
      obtain ⟨hfirst, hrest⟩ := List.cons.inj h
      rw [Pattern.eq_of_listing_eq hfirst, Pattern.eq_of_listings_eq hrest]

end

mutual

theorem Expr.eq_of_listing_eq {e e' : Expr} (h : e.outline.listing = e'.outline.listing) :
    e = e' := by
  cases e with
  | literal value =>
    cases e' with
    | literal value' => rw [eq_of_literal Expr.tellsKinds h]
    | _ => simp (disch := decide) [Expr.outline, listing, Expr.literalLabel_ne] at h
  | var name =>
    cases e' with
    | var name' => rw [text_inj.mp (List.cons.inj (Listing.node.inj h).2).1]
    | _ => simp (disch := decide) [Expr.outline, listing, Expr.literalLabel_ne] at h
  | list items =>
    cases e' with
    | list items' =>
      have hitems := nodes_inj.mp (List.cons.inj (Listing.node.inj h).2).1
      rw [Expr.eq_of_listings_eq hitems]
    | _ => simp (disch := decide) [Expr.outline, listing, Expr.literalLabel_ne] at h
  | binop op left right =>
    cases e' with
    | binop op' left' right' =>
      obtain ⟨hop, hoperands⟩ := List.cons.inj (Listing.node.inj h).2
      obtain ⟨hleft, hright⟩ := List.cons.inj hoperands
      rw [text_inj.mp hop, Expr.eq_of_listing_eq (node_inj.mp hleft),
        Expr.eq_of_listing_eq (node_inj.mp (List.cons.inj hright).1)]
    | _ => simp (disch := decide) [Expr.outline, listing, Expr.literalLabel_ne] at h
  | letIn name value body =>
    cases e' with
    | letIn name' value' body' =>
      obtain ⟨hname, hparts⟩ := List.cons.inj (Listing.node.inj h).2
      obtain ⟨hvalue, hbody⟩ := List.cons.inj hparts
      rw [text_inj.mp hname, Expr.eq_of_listing_eq (node_inj.mp hvalue),
        Expr.eq_of_listing_eq (node_inj.mp (List.cons.inj hbody).1)]
    | _ => simp (disch := decide) [Expr.outline, listing, Expr.literalLabel_ne] at h
  | apply function args =>
    cases e' with
    | apply function' args' =>
      obtain ⟨hfunction, hargs⟩ := List.cons.inj (Listing.node.inj h).2
      rw [Expr.eq_of_listing_eq (node_inj.mp hfunction),
        Expr.eq_of_listings_eq (nodes_inj.mp (List.cons.inj hargs).1)]
    | _ => simp (disch := decide) [Expr.outline, listing, Expr.literalLabel_ne] at h
  | lambda params body =>
    cases e' with
    | lambda params' body' =>
      obtain ⟨hparams, hbody⟩ := List.cons.inj (Listing.node.inj h).2
      rw [texts_inj.mp hparams, Expr.eq_of_listing_eq (node_inj.mp (List.cons.inj hbody).1)]
    | _ => simp (disch := decide) [Expr.outline, listing, Expr.literalLabel_ne] at h
  | cases subject clauses =>
    cases e' with
    | cases subject' clauses' =>
      obtain ⟨hsubject, hclauses⟩ := List.cons.inj (Listing.node.inj h).2
      rw [Expr.eq_of_listing_eq (node_inj.mp hsubject),
        Expr.eq_of_clauseListings_eq (nodes_inj.mp (List.cons.inj hclauses).1)]
    | _ => simp (disch := decide) [Expr.outline, listing, Expr.literalLabel_ne] at h

theorem Expr.eq_of_listings_eq {es es' : List Expr}
    (h : listings (Expr.outlines es) = listings (Expr.outlines es')) : es = es' := by
  cases es with
  | nil =>
    cases es' with
    | nil => rfl
    | cons e' rest' => cases h
  | cons e rest =>
    cases es' with
    | nil => cases h
    | cons e' rest' =>
      obtain ⟨hfirst, hrest⟩ := List.cons.inj h
      rw [Expr.eq_of_listing_eq hfirst, Expr.eq_of_listings_eq hrest]

theorem Expr.eq_of_clauseListings_eq {clauses clauses' : List Clause}
    (h : listings (Expr.clauseOutlines clauses) = listings (Expr.clauseOutlines clauses')) :
    clauses = clauses' := by
  match clauses, clauses' with
  | [], [] => rfl
  | [], ⟨pattern', body'⟩ :: rest' => cases h
  | ⟨pattern, body⟩ :: rest, [] => cases h
  | ⟨pattern, body⟩ :: rest, ⟨pattern', body'⟩ :: rest' =>
    obtain ⟨hclause, hrest⟩ := List.cons.inj h
    obtain ⟨hpattern, hbody⟩ := List.cons.inj (Listing.node.inj hclause).2
    rw [Pattern.eq_of_listing_eq (node_inj.mp hpattern),
      Expr.eq_of_listing_eq (node_inj.mp (List.cons.inj hbody).1),
      Expr.eq_of_clauseListings_eq hrest]

end

/-! ## Legible outlines -/

namespace Outline

/-- Labels and names of fields are words. -/
abbrev IsWord (s : String) : Prop := s ≠ "" ∧ s.toList.all (' ' < ·) = true

section

variable {name s : String}

theorem IsWord.legibleLine_append (hname : IsWord name) (hs : IsControlFree s) :
    Listing.LegibleLine (name ++ s) := by
  obtain ⟨c, rest, hlist⟩ :=
    List.exists_cons_of_ne_nil (String.toList_eq_nil_iff.not.mpr hname.1)
  have hchars : ∀ c ∈ name.toList, ' ' < c := by simpa using hname.2
  have hcontrol : IsControlFree name := fun c hc => (hchars c hc).le
  refine ⟨⟨c, rest ++ s.toList, ?_, ?_⟩, hcontrol.append hs⟩
  · rw [String.toList_append, hlist, List.cons_append]
  · exact (hchars c (hlist ▸ List.mem_cons_self)).ne'

theorem legible_outline (hname : IsWord name) {below : List Listing}
    (hbelow : ∀ listing ∈ below, Listing.Legible listing) :
    Listing.Legible (.node name below) := by
  have hline := hname.legibleLine_append (s := "") nofun
  rw [String.append_empty] at hline
  exact .node hline hbelow

theorem legible_scalar (hname : IsWord name) (hs : IsControlFree s) :
    Listing.Legible (.node (name ++ ": " ++ s) []) := by
  have hcolon : IsControlFree ": " := Text.isControlFree_iff.mpr (by decide)
  rw [String.append_assoc]
  exact .node (hname.legibleLine_append (hcolon.append hs)) nofun

theorem legible_section (hname : IsWord name) {below : List Listing}
    (hbelow : ∀ listing ∈ below, Listing.Legible listing) :
    Listing.Legible (.node (name ++ ":") below) := by
  have hcolon : IsControlFree ":" := Text.isControlFree_iff.mpr (by decide)
  exact .node (hname.legibleLine_append hcolon) hbelow

theorem legible_text (hname : IsWord name) (t : Text) :
    Listing.Legible (valueListing name (.text t)) :=
  legible_scalar hname (Text.isControlFree_quoted t)

theorem legible_node (hname : IsWord name) {outline : Outline}
    (h : Listing.Legible outline.listing) : Listing.Legible (valueListing name (.node outline)) :=
  legible_section hname (List.forall_mem_singleton.mpr h)

theorem legible_nodes (hname : IsWord name) {outlines : List Outline}
    (h : ∀ listing ∈ listings outlines, Listing.Legible listing) :
    Listing.Legible (valueListing name (.nodes outlines)) := by
  have hempty : IsControlFree ": []" := Text.isControlFree_iff.mpr (by decide)
  rw [valueListing]
  split
  · exact .node (hname.legibleLine_append hempty) nofun
  · exact legible_section hname h

theorem legible_literal (hname : IsWord name) (value : Literal) :
    Listing.Legible (Outline.mk name [("value", value.outlineValue)]).listing := by
  have hvalue : Listing.Legible (valueListing "value" value.outlineValue) := by
    cases value with
    | int n => exact legible_scalar (by decide) (Text.isControlFree_toString n)
    | string t => exact legible_text (by decide) t
    | bool b =>
      apply legible_scalar (by decide)
      cases b <;> exact Text.isControlFree_iff.mpr (by decide)
  exact legible_outline hname (List.forall_mem_singleton.mpr hvalue)

end

end Outline

theorem Pattern.isWord_literalLabel (value : Literal) : IsWord (Pattern.literalLabel value) := by
  have hwords : IsWord "IntPattern" ∧ IsWord "StringPattern" ∧ IsWord "BoolPattern" := by
    decide
  cases value with
  | int n => exact hwords.1
  | string t => exact hwords.2.1
  | bool b => exact hwords.2.2

theorem Expr.isWord_literalLabel (value : Literal) : IsWord (Expr.literalLabel value) := by
  have hwords : IsWord "IntLit" ∧ IsWord "StringLit" ∧ IsWord "BoolLit" := by decide
  cases value with
  | int n => exact hwords.1
  | string t => exact hwords.2.1
  | bool b => exact hwords.2.2

mutual

theorem Pattern.legible_listing (p : Pattern) : Listing.Legible p.outline.listing := by
  cases p with
  | literal value => exact legible_literal (Pattern.isWord_literalLabel value) value
  | var name =>
    have hname := legible_text (by decide : IsWord "name") name
    exact legible_outline (by decide) (List.forall_mem_singleton.mpr hname)
  | wildcard => exact legible_outline (by decide) nofun
  | list items =>
    have hitems := legible_nodes (by decide : IsWord "items") (Pattern.legible_listings items)
    exact legible_outline (by decide) (List.forall_mem_singleton.mpr hitems)
  | listTail items tail =>
    have hitems := legible_nodes (by decide : IsWord "items") (Pattern.legible_listings items)
    have htail := legible_text (by decide : IsWord "tail") tail
    exact legible_outline (by decide)
      (List.forall_mem_cons.mpr ⟨hitems, List.forall_mem_singleton.mpr htail⟩)

theorem Pattern.legible_listings (ps : List Pattern) :
    ∀ listing ∈ listings (Pattern.outlines ps), Listing.Legible listing := by
  cases ps with
  | nil => exact nofun
  | cons p rest =>
    exact List.forall_mem_cons.mpr ⟨Pattern.legible_listing p, Pattern.legible_listings rest⟩

end

mutual

theorem Expr.legible_listing (e : Expr) : Listing.Legible e.outline.listing := by
  cases e with
  | literal value => exact legible_literal (Expr.isWord_literalLabel value) value
  | var name =>
    have hname := legible_text (by decide : IsWord "name") name
    exact legible_outline (by decide) (List.forall_mem_singleton.mpr hname)
  | list items =>
    have hitems := legible_nodes (by decide : IsWord "items") (Expr.legible_listings items)
    exact legible_outline (by decide) (List.forall_mem_singleton.mpr hitems)
  | binop op left right =>
    have hop := legible_text (by decide : IsWord "op") op
    have hleft := legible_node (by decide : IsWord "left") (Expr.legible_listing left)
    have hright := legible_node (by decide : IsWord "right") (Expr.legible_listing right)
    exact legible_outline (by decide) (List.forall_mem_cons.mpr ⟨hop,
      List.forall_mem_cons.mpr ⟨hleft, List.forall_mem_singleton.mpr hright⟩⟩)
  | letIn name value body =>
    have hname := legible_text (by decide : IsWord "name") name
    have hvalue := legible_node (by decide : IsWord "value") (Expr.legible_listing value)
    have hbody := legible_node (by decide : IsWord "body") (Expr.legible_listing body)
    exact legible_outline (by decide) (List.forall_mem_cons.mpr ⟨hname,
      List.forall_mem_cons.mpr ⟨hvalue, List.forall_mem_singleton.mpr hbody⟩⟩)
  | apply function args =>
    have hfunction := legible_node (by decide : IsWord "function") (Expr.legible_listing function)
    have hargs := legible_nodes (by decide : IsWord "args") (Expr.legible_listings args)
    exact legible_outline (by decide)
      (List.forall_mem_cons.mpr ⟨hfunction, List.forall_mem_singleton.mpr hargs⟩)
  | lambda params body =>
    have hparams := legible_scalar (by decide : IsWord "params")
      (Text.isControlFree_quotedList params)
    have hbody := legible_node (by decide : IsWord "body") (Expr.legible_listing body)
    exact legible_outline (by decide)
      (List.forall_mem_cons.mpr ⟨hparams, List.forall_mem_singleton.mpr hbody⟩)
  | cases subject clauses =>
    have hsubject := legible_node (by decide : IsWord "subject") (Expr.legible_listing subject)
    have hclauses := legible_nodes (by decide : IsWord "clauses")
      (Expr.legible_clauseListings clauses)
    exact legible_outline (by decide)
      (List.forall_mem_cons.mpr ⟨hsubject, List.forall_mem_singleton.mpr hclauses⟩)

theorem Expr.legible_listings (es : List Expr) :
    ∀ listing ∈ listings (Expr.outlines es), Listing.Legible listing := by
  cases es with
  | nil => exact nofun
  | cons e rest =>
    exact List.forall_mem_cons.mpr ⟨Expr.legible_listing e, Expr.legible_listings rest⟩

theorem Expr.legible_clauseListings (clauses : List Clause) :
    ∀ listing ∈ listings (Expr.clauseOutlines clauses), Listing.Legible listing := by
  match clauses with
  | [] => exact nofun
  | ⟨pattern, body⟩ :: rest =>
    have hpattern := legible_node (by decide : IsWord "pattern") (Pattern.legible_listing pattern)
    have hbody := legible_node (by decide : IsWord "body") (Expr.legible_listing body)
    have hclause := legible_outline (by decide : IsWord "MatchClause")
      (List.forall_mem_cons.mpr ⟨hpattern, List.forall_mem_singleton.mpr hbody⟩)
    exact List.forall_mem_cons.mpr ⟨hclause, Expr.legible_clauseListings rest⟩

end

theorem Expr.controlFree_of_mem_lines (e : Expr) (depth : Nat) :
    ∀ line ∈ e.outline.lines depth, IsControlFree line := by
  intro line hline
  rw [← lines_listing] at hline
  exact (Listing.indented_of_mem_lines e.legible_listing line hline).controlFree

/-- The lines of an outline can be told apart from those of any other. -/
theorem Expr.eq_of_lines_eq {e e' : Expr} {depth : Nat}
    (h : e.outline.lines depth = e'.outline.lines depth) : e = e' := by
  have hlines : Listing.linesOfAll depth [e.outline.listing] =
      Listing.linesOfAll depth [e'.outline.listing] := by
    simp only [Listing.linesOfAll, lines_listing, h]
  have hlegible := List.forall_mem_singleton.mpr (Expr.legible_listing e)
  have hlegible' := List.forall_mem_singleton.mpr (Expr.legible_listing e')
  exact Expr.eq_of_listing_eq
    (List.singleton_inj.mp (Listing.linesOfAll_injective hlegible hlegible' hlines))

end CaseScript
