import CaseScript.Diagnostic.Trail
import CaseScript.Json.Basic
import CaseScript.Proofs.Diagnostic.Trail
import CaseScript.Proofs.Text.Reading

/-!
# Paths into JSON values

The written form of a trail, read as accesses to fields and items one after another. A trail that
leads to a value does so in its written form, because the names of its fields cannot be mistaken for
further steps.
-/

namespace CaseScript
namespace Json

open Text

def field? (json : Json) (name : String) : Option Json :=
  match json with
  | object fields => lookup name fields
  | _ => none

def item? (json : Json) (index : Nat) : Option Json :=
  match json with
  | array items => items[index]?
  | _ => none

/-- The value that the steps of a path lead to. -/
def walk (json : Json) : List Char → Option Json
  | [] => some json
  | '.' :: rest =>
    (json.field? (String.ofList (rest.takeWhile Char.isAlpha))).bind fun value =>
      value.walk (rest.dropWhile Char.isAlpha)
  | '[' :: rest =>
    if digits rest ≠ [] ∧ (afterDigits rest).head? = some ']' then
      (json.item? (number rest)).bind fun value => value.walk (afterDigits rest).tail
    else none
  | _ => none
termination_by s => s.length
decreasing_by
  · have hle := (List.dropWhile_sublist Char.isAlpha (l := rest)).length_le
    simp only [List.length_cons]
    omega
  · have hle := (List.dropWhile_sublist Char.isDigit (l := rest)).length_le
    simp only [List.length_cons, List.length_tail, afterDigits]
    omega

/-- The value that a path leads to inside a value called `root`. -/
def at? (json : Json) (root path : String) : Option Json :=
  if root.toList.isPrefixOf path.toList then json.walk (path.toList.drop root.toList.length)
  else none

/-- Is a name made of letters only? In a path it ends where the next step begins. -/
def IsPlain (name : String) : Prop := name.toList.all Char.isAlpha = true

instance (name : String) : Decidable (IsPlain name) := instDecidableEqBool _ _

theorem IsPlain.isAlpha {name : String} (h : IsPlain name) : ∀ c ∈ name.toList, c.isAlpha = true :=
  List.all_eq_true.mp h

/-- A trail from a value called `root` to a value inside it. -/
inductive Reaches (whole : Json) (root : String) : Trail → Json → Prop
  | root : Reaches whole root (.root root) whole
  | field {trail : Trail} {fields : List (Text × Json)} {name : String} {value : Json}
    (parent : Reaches whole root trail (.object fields)) (found : lookup name fields = some value)
    (plain : IsPlain name) : Reaches whole root (trail.field name) value
  | item {trail : Trail} {items : List Json} {index : Nat} {value : Json}
    (parent : Reaches whole root trail (.array items)) (found : items[index]? = some value) :
    Reaches whole root (trail.item index) value

/-- A name in a path ends where the next step begins. -/
def StartsStep (s : List Char) : Prop := s = [] ∨ ∃ rest, s = '.' :: rest ∨ s = '[' :: rest

theorem StartsStep.ends {p : Char → Bool} {s : List Char} (h : StartsStep s)
    (hp : p '.' = false ∧ p '[' = false) : Ends p s := by
  rcases h with rfl | ⟨rest, rfl | rfl⟩
  · exact ends_nil
  · exact ends_cons hp.1
  · exact ends_cons hp.2

theorem walk_field {json : Json} {name : String} (plain : IsPlain name)
    {rest : List Char} (h : StartsStep rest) :
    json.walk ('.' :: (name.toList ++ rest)) =
      (json.field? name).bind fun value => value.walk rest := by
  have hends : Ends Char.isAlpha rest := h.ends (by decide)
  rw [walk, takeWhile_append plain.isAlpha hends, dropWhile_append plain.isAlpha hends,
    String.ofList_toList]

theorem walk_item (json : Json) (index : Nat) (rest : List Char) :
    json.walk ('[' :: ((toString index).toList ++ ']' :: rest)) =
      (json.item? index).bind fun value => value.walk rest := by
  have hends : Ends Char.isDigit (']' :: rest) := ends_cons (by decide)
  rw [walk, digits_toString index hends, afterDigits_toString index hends,
    number_toString index hends, if_pos ⟨toString_ne_nil index, rfl⟩, List.tail_cons]

/-- What follows a trail in a path is read in the value that the trail leads to. -/
theorem Reaches.walk_drop {whole value : Json} {root : String} {trail : Trail}
    (h : whole.Reaches root trail value) : ∃ steps, trail.written.toList = root.toList ++ steps ∧
      ∀ rest, StartsStep rest → whole.walk (steps ++ rest) = value.walk rest := by
  induction h with
  | root => exact ⟨[], by simp, fun rest _ => rfl⟩
  | field parent found plain ih =>
    rename_i trail fields name value
    obtain ⟨steps, hwritten, hwalk⟩ := ih
    refine ⟨steps ++ '.' :: name.toList, ?_, ?_⟩
    · simp [Trail.written, hwritten]
    · intro rest hrest
      have hstep := hwalk ('.' :: (name.toList ++ rest)) (.inr ⟨_, .inl rfl⟩)
      rw [List.append_assoc, List.cons_append, hstep, walk_field plain hrest]
      simp [field?, found]
  | item parent found ih =>
    rename_i trail items index value
    obtain ⟨steps, hwritten, hwalk⟩ := ih
    refine ⟨steps ++ '[' :: ((toString index).toList ++ [']']), ?_, ?_⟩
    · simp [Trail.written, hwritten]
    · intro rest hrest
      have hstep := hwalk ('[' :: ((toString index).toList ++ ']' :: rest)) (.inr ⟨_, .inr rfl⟩)
      rw [walk_item] at hstep
      simpa [item?, found] using hstep

/-- The path that is written for a trail leads where the trail leads. -/
theorem Reaches.at?_written {whole value : Json} {root : String} {trail : Trail}
    (h : whole.Reaches root trail value) : whole.at? root trail.written = some value := by
  obtain ⟨steps, hwritten, hwalk⟩ := h.walk_drop
  have hpath := hwalk [] (.inl rfl)
  rw [List.append_nil] at hpath
  rw [at?, hwritten, if_pos (List.isPrefixOf_iff_prefix.mpr (List.prefix_append ..)),
    List.drop_left, hpath, walk]

theorem Reaches.root_prefix {whole value : Json} {root : String} {trail : Trail}
    (h : whole.Reaches root trail value) : root.toList <+: trail.written.toList := by
  obtain ⟨steps, hwritten, -⟩ := h.walk_drop
  exact ⟨steps, hwritten.symm⟩

theorem Reaches.written_ne_empty {whole value : Json} {root : String} {trail : Trail}
    (h : whole.Reaches root trail value) (hroot : root ≠ "") : trail.written ≠ "" := by
  intro hempty
  have hprefix := h.root_prefix
  rw [hempty] at hprefix
  exact hroot (String.toList_injective (List.prefix_nil.mp hprefix))

/-! ## Trails that are written alike -/

/-- What stands before and after the last mark of its kind. -/
theorem append_cons_inj {c : Char} {before before' after after' : List Char} (hc : c ∉ after)
    (hc' : c ∉ after') (h : before ++ c :: after = before' ++ c :: after') :
    before = before' ∧ after = after' := by
  rcases List.append_eq_append_iff.mp h with ⟨middle, hbefore, hafter⟩ | ⟨middle, hbefore, hafter⟩
  · cases middle with
    | nil =>
      cases hafter
      exact ⟨by simpa using hbefore.symm, rfl⟩
    | cons first middle =>
      rw [List.cons_append, List.cons.injEq] at hafter
      exact absurd (by rw [hafter.2]; simp) hc
  · cases middle with
    | nil =>
      cases hafter
      exact ⟨by simpa using hbefore, rfl⟩
    | cons first middle =>
      rw [List.cons_append, List.cons.injEq] at hafter
      exact absurd (by rw [hafter.2]; simp) hc'

theorem field_written_ne_item_written {before before' number : List Char} {name : String}
    (plain : IsPlain name) :
    before ++ '.' :: name.toList ≠ before' ++ '[' :: (number ++ [']']) := by
  intro h
  have hlast := congrArg List.getLast? h
  have hright : (before' ++ '[' :: (number ++ [']'])).getLast? = some ']' := by
    rw [← List.cons_append, ← List.append_assoc, List.getLast?_concat]
  rw [hright, List.getLast?_append, List.getLast?_cons, Option.some_or,
    ← List.getLast?_cons] at hlast
  rcases List.mem_cons.mp (List.mem_of_getLast? hlast) with hdot | hname
  · exact absurd hdot (by decide)
  · exact absurd (plain.isAlpha ']' hname) (by decide)

theorem IsPlain.dot_notMem {name : String} (plain : IsPlain name) : '.' ∉ name.toList := by
  intro hmem
  exact absurd (plain.isAlpha '.' hmem) (by decide)

theorem bracket_notMem_index (index : Nat) : '[' ∉ (toString index).toList ++ [']'] := by
  intro hmem
  rcases List.mem_append.mp hmem with hdigit | hend
  · exact absurd (isDigit_of_mem_toString hdigit) (by decide)
  · exact absurd (List.mem_singleton.mp hend) (by decide)

theorem index_eq_of_written {index index' : Nat} {rest rest' : List Char}
    (h : (toString index).toList ++ ']' :: rest = (toString index').toList ++ ']' :: rest') :
    index = index' := by
  have hends (rest : List Char) : Ends Char.isDigit (']' :: rest) := ends_cons (by decide)
  have hnumber := congrArg number h
  rwa [number_toString _ (hends rest), number_toString _ (hends rest')] at hnumber

theorem toList_written_field (trail : Trail) (name : String) :
    (trail.field name).written.toList = trail.written.toList ++ '.' :: name.toList := by
  simp [Trail.written]

theorem toList_written_item (trail : Trail) (index : Nat) :
    (trail.item index).written.toList =
      trail.written.toList ++ '[' :: ((toString index).toList ++ [']']) := by
  simp [Trail.written]

/-- A trail with a further step is not written like its root. -/
theorem Reaches.step_ne_root {whole value : Json} {root : String} {trail : Trail}
    (h : whole.Reaches root trail value) (c : Char) (s : List Char) :
    root.toList ≠ trail.written.toList ++ c :: s := by
  intro heq
  have hle := h.root_prefix.length_le
  have hlength := congrArg List.length heq
  rw [List.length_append, List.length_cons] at hlength
  omega

/-- Two trails that lead to values are told apart by how they are written. -/
theorem Reaches.trail_eq_of_written {whole value value' : Json} {root : String}
    {trail trail' : Trail} (h : whole.Reaches root trail value)
    (h' : whole.Reaches root trail' value') (heq : trail.written.toList = trail'.written.toList) :
    trail = trail' := by
  induction h generalizing trail' value' with
  | root =>
    cases h' with
    | root => rfl
    | field parent' _ _ => exact absurd heq (toList_written_field _ _ ▸ parent'.step_ne_root _ _)
    | item parent' _ => exact absurd heq (toList_written_item _ _ ▸ parent'.step_ne_root _ _)
  | field parent found plain ih =>
    rw [toList_written_field] at heq
    cases h' with
    | root => exact absurd heq.symm (parent.step_ne_root _ _)
    | field parent' found' plain' =>
      rw [toList_written_field] at heq
      obtain ⟨hparent, hname⟩ := append_cons_inj plain.dot_notMem plain'.dot_notMem heq
      rw [ih parent' hparent, String.toList_injective hname]
    | item parent' found' =>
      rw [toList_written_item] at heq
      exact absurd heq (field_written_ne_item_written plain)
  | item parent found ih =>
    rw [toList_written_item] at heq
    cases h' with
    | root => exact absurd heq.symm (parent.step_ne_root _ _)
    | field parent' found' plain' =>
      rw [toList_written_field] at heq
      exact absurd heq.symm (field_written_ne_item_written plain')
    | item parent' found' =>
      rw [toList_written_item] at heq
      obtain ⟨hparent, hindex⟩ :=
        append_cons_inj (bracket_notMem_index _) (bracket_notMem_index _) heq
      rw [ih parent' hparent, index_eq_of_written hindex]

/-- What a trail leads to is written like the trail, with more behind it. -/
theorem exists_written_of_leads {outer inner : Trail} (h : outer.Leads inner) :
    ∃ steps, inner.written.toList = outer.written.toList ++ steps := by
  induction h with
  | here => exact ⟨[], (List.append_nil _).symm⟩
  | field name _ ih =>
    obtain ⟨steps, hwritten⟩ := ih
    exact ⟨steps ++ '.' :: name.toList, by rw [toList_written_field, hwritten, List.append_assoc]⟩
  | item index _ ih =>
    obtain ⟨steps, hwritten⟩ := ih
    exact ⟨_, by rw [toList_written_item, hwritten, List.append_assoc]⟩

/-- The paths of two trails through different items of one list branch off at the item numbers. -/
theorem not_prefix_of_leads {list left right : Trail} {i j : Nat} (hne : i ≠ j)
    (hleft : (list.item i).Leads left) (hright : (list.item j).Leads right) :
    ¬ left.written.toList <+: right.written.toList := by
  rintro ⟨more, hmore⟩
  obtain ⟨steps, hsteps⟩ := exists_written_of_leads hleft
  obtain ⟨steps', hsteps'⟩ := exists_written_of_leads hright
  rw [hsteps, hsteps', toList_written_item, toList_written_item] at hmore
  have hitems : '[' :: ((toString i).toList ++ ']' :: (steps ++ more)) =
      '[' :: ((toString j).toList ++ ']' :: steps') := by
    simpa only [List.append_assoc, List.append_cancel_left_eq, List.cons_append,
      List.nil_append] using hmore
  exact hne (index_eq_of_written (List.tail_eq_of_cons_eq hitems))

/-! ## Items of a list -/

/-- Are these the values from `index` on of a list at a trail? -/
def ItemsReached (whole : Json) (root : String) (trail : Trail) (index : Nat) (values : List Json) :
    Prop :=
  ∀ k value, values[k]? = some value → whole.Reaches root (trail.item (index + k)) value

section Lists

variable {whole value : Json} {root : String} {trail : Trail} {index : Nat} {values : List Json}

theorem Reaches.items (h : whole.Reaches root trail (.array values)) :
    whole.ItemsReached root trail 0 values := by
  intro k value hk
  rw [Nat.zero_add]
  exact .item h hk

theorem ItemsReached.head (h : whole.ItemsReached root trail index (value :: values)) :
    whole.Reaches root (trail.item index) value := h 0 value rfl

theorem ItemsReached.tail (h : whole.ItemsReached root trail index (value :: values)) :
    whole.ItemsReached root trail (index + 1) values := by
  intro k next hk
  have hnext := h (k + 1) next hk
  rwa [Nat.add_comm k 1, ← Nat.add_assoc] at hnext

end Lists

end Json
end CaseScript
