import CaseScript.Diagnostic.Trail

/-!
# Trails into each other

A trail leads to all trails that continue it. Two trails that branch off from each other lead to no
common place. Every trail can be written so that no other trail is written alike.
-/

namespace CaseScript
namespace Trail

inductive Leads (outer : Trail) : Trail → Prop
  | here : Leads outer outer
  | field {inner : Trail} (name : String) (h : Leads outer inner) : Leads outer (inner.field name)
  | item {inner : Trail} (index : Nat) (h : Leads outer inner) : Leads outer (inner.item index)

def depth : Trail → Nat
  | root _ => 0
  | field parent _ | item parent _ => parent.depth + 1

variable {outer other inner : Trail}

theorem Leads.depth_le (h : outer.Leads inner) : outer.depth ≤ inner.depth := by
  induction h with
  | here => exact Nat.le_refl _
  | field name h ih =>
    rw [depth]
    omega
  | item index h ih =>
    rw [depth]
    omega

theorem Leads.trans {next : Trail} (h : outer.Leads inner) (hnext : inner.Leads next) :
    outer.Leads next := by
  induction hnext with
  | here => exact h
  | field name _ ih => exact .field name ih
  | item index _ ih => exact .item index ih

theorem Leads.of_field {name : String} (h : (outer.field name).Leads inner) : outer.Leads inner :=
  (Leads.field name .here).trans h

theorem Leads.of_item {index : Nat} (h : (outer.item index).Leads inner) : outer.Leads inner :=
  (Leads.item index .here).trans h

/-- The trails that lead to a place are told apart by their depth. -/
theorem Leads.eq_of_depth_eq (h : outer.Leads inner) (ho : other.Leads inner)
    (hdepth : outer.depth = other.depth) : outer = other := by
  induction h with
  | here =>
    cases ho with
    | here => rfl
    | field name ho =>
      have hle := ho.depth_le
      rw [depth] at hdepth
      omega
    | item index ho =>
      have hle := ho.depth_le
      rw [depth] at hdepth
      omega
  | field name h ih =>
    cases ho with
    | here =>
      have hle := h.depth_le
      rw [depth] at hdepth
      omega
    | field _ ho => exact ih ho
  | item index h ih =>
    cases ho with
    | here =>
      have hle := h.depth_le
      rw [depth] at hdepth
      omega
    | item _ ho => exact ih ho

theorem not_leads_of_field {name name' : String} (hne : name ≠ name')
    (h : (outer.field name).Leads inner) : ¬ (outer.field name').Leads inner := by
  intro h'
  have heq := h.eq_of_depth_eq h' rfl
  cases heq
  exact hne rfl

theorem not_leads_of_item {index index' : Nat} (hne : index ≠ index')
    (h : (outer.item index).Leads inner) : ¬ (outer.item index').Leads inner := by
  intro h'
  have heq := h.eq_of_depth_eq h' rfl
  cases heq
  exact hne rfl

theorem not_leads_field_self (name : String) : ¬ (outer.field name).Leads outer := by
  intro h
  have hle := h.depth_le
  rw [depth] at hle
  omega

/-! ## Order -/

/-- Does a trail lead through an earlier item of some list than another trail? -/
def LeftOf (left right : Trail) : Prop :=
  ∃ list i j, i < j ∧ (item list i).Leads left ∧ (item list j).Leads right

/-! ## Unambiguous writing -/

/-- The characters of a text, each behind a mark. -/
def marked (text : List Char) : List Char := text.flatMap fun c => ['\'', c]

/-- A way to write a trail that can be read back: the last step comes first. -/
def signature : Trail → List Char
  | root name => '/' :: marked name.toList
  | field parent name => '.' :: (marked name.toList ++ parent.signature)
  | item parent index => '[' :: (List.replicate index '|' ++ parent.signature)

theorem marked_append_inj {text text' rest rest' : List Char} (hr : rest.head? ≠ some '\'')
    (hr' : rest'.head? ≠ some '\'') (h : marked text ++ rest = marked text' ++ rest') :
    text = text' ∧ rest = rest' := by
  induction text generalizing text' with
  | nil =>
    cases text' with
    | nil => exact ⟨rfl, h⟩
    | cons c text' =>
      have hrest : rest = '\'' :: c :: (marked text' ++ rest') := h
      exact absurd (by rw [hrest]; rfl) hr
  | cons c text ih =>
    cases text' with
    | nil =>
      have hrest : '\'' :: c :: (marked text ++ rest) = rest' := h
      exact absurd (by rw [← hrest]; rfl) hr'
    | cons c' text' =>
      have hcons : '\'' :: c :: (marked text ++ rest) = '\'' :: c' :: (marked text' ++ rest') := h
      simp only [List.cons.injEq, true_and] at hcons
      obtain ⟨rfl, hmarked⟩ := hcons
      obtain ⟨rfl, hrest⟩ := ih hmarked
      exact ⟨rfl, hrest⟩

theorem replicate_append_inj {n n' : Nat} {rest rest' : List Char} (hr : rest.head? ≠ some '|')
    (hr' : rest'.head? ≠ some '|')
    (h : List.replicate n '|' ++ rest = List.replicate n' '|' ++ rest') :
    n = n' ∧ rest = rest' := by
  induction n generalizing n' with
  | zero =>
    cases n' with
    | zero => exact ⟨rfl, h⟩
    | succ n' => exact absurd (by rw [show rest = _ from h]; rfl) hr
  | succ n ih =>
    cases n' with
    | zero => exact absurd (by rw [← show _ = rest' from h]; rfl) hr'
    | succ n' =>
      have hcons := h
      simp only [List.replicate_succ, List.cons_append, List.cons.injEq, true_and] at hcons
      obtain ⟨rfl, hrest⟩ := ih hcons
      exact ⟨rfl, hrest⟩

theorem head?_signature (trail : Trail) :
    trail.signature.head? ≠ some '\'' ∧ trail.signature.head? ≠ some '|' := by
  cases trail <;> simp [signature]

theorem signature_injective {trail trail' : Trail} (h : trail.signature = trail'.signature) :
    trail = trail' := by
  induction trail generalizing trail' with
  | root name =>
    cases trail' with
    | root name' =>
      have hmarked : marked name.toList ++ [] = marked name'.toList ++ [] := by
        simpa [signature] using h
      obtain ⟨hname, -⟩ := marked_append_inj (by simp) (by simp) hmarked
      rw [String.toList_injective hname]
    | _ => simp [signature] at h
  | field parent name ih =>
    cases trail' with
    | field parent' name' =>
      have hmarked : marked name.toList ++ parent.signature =
          marked name'.toList ++ parent'.signature := by simpa [signature] using h
      obtain ⟨hname, hparent⟩ :=
        marked_append_inj parent.head?_signature.1 parent'.head?_signature.1 hmarked
      rw [String.toList_injective hname, ih hparent]
    | _ => simp [signature] at h
  | item parent index ih =>
    cases trail' with
    | item parent' index' =>
      have hmarks : List.replicate index '|' ++ parent.signature =
          List.replicate index' '|' ++ parent'.signature := by simpa [signature] using h
      obtain ⟨rfl, hparent⟩ :=
        replicate_append_inj parent.head?_signature.2 parent'.head?_signature.2 hmarks
      rw [ih hparent]
    | _ => simp [signature] at h

end Trail
end CaseScript
