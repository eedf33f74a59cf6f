import CaseScript.Expr.Outline
import CaseScript.Proofs.Text.Quoted

/-!
# Trees of lines

In a listing the lines below a line are indented further, so that the indented lines determine the
tree of lines they were written for.
-/

namespace CaseScript

open Text (IsControlFree)

/-- What has a property up to the first thing behind it that lacks it can be told from the whole. -/
theorem append_inj_of_boundary {α : Type} (P : α → Prop) {front front' back back' : List α}
    (hfront : ∀ a ∈ front, P a) (hfront' : ∀ a ∈ front', P a) (hback : ∀ a ∈ back.head?, ¬ P a)
    (hback' : ∀ a ∈ back'.head?, ¬ P a) (h : front ++ back = front' ++ back') :
    front = front' ∧ back = back' := by
  induction front generalizing front' with
  | nil =>
    cases front' with
    | nil => exact ⟨rfl, h⟩
    | cons a rest =>
      rw [List.nil_append] at h
      subst h
      exact absurd (hfront' a List.mem_cons_self) (hback a rfl)
  | cons a rest ih =>
    cases front' with
    | nil =>
      rw [List.nil_append] at h
      subst h
      exact absurd (hfront a List.mem_cons_self) (hback' a rfl)
    | cons a' rest' =>
      obtain ⟨rfl, hrest⟩ := List.cons.inj h
      rw [List.forall_mem_cons] at hfront hfront'
      obtain ⟨rfl, hback⟩ := ih hfront.2 hfront'.2 hrest
      exact ⟨rfl, hback⟩

/-- A line and the listings below it. -/
inductive Listing where
  | node (line : String) (below : List Listing)

namespace Listing

mutual

def lines (depth : Nat) : Listing → List String
  | node line below => Outline.indent depth line :: linesOfAll (depth + 1) below

def linesOfAll (depth : Nat) : List Listing → List String
  | [] => []
  | listing :: rest => lines depth listing ++ linesOfAll depth rest

end

/-- Does a line start with something else than a space, and is it free of control characters? -/
structure LegibleLine (line : String) : Prop where
  flush : ∃ c rest, line.toList = c :: rest ∧ c ≠ ' '
  controlFree : IsControlFree line

inductive Legible : Listing → Prop
  | node {line : String} {below : List Listing} (line_legible : LegibleLine line)
    (below_legible : ∀ listing ∈ below, Legible listing) : Legible (.node line below)

/-- The number of spaces in front of a line. -/
def margin (line : String) : Nat := (line.toList.takeWhile (· = ' ')).length

theorem toList_indent (depth : Nat) (line : String) :
    (Outline.indent depth line).toList = List.replicate (2 * depth) ' ' ++ line.toList := by
  rw [Outline.indent, String.toList_append, String.toList_ofList]

theorem margin_indent {line : String} (h : LegibleLine line) (depth : Nat) :
    margin (Outline.indent depth line) = 2 * depth := by
  obtain ⟨c, rest, hline, hc⟩ := h.flush
  have hspaces : ∀ c ∈ List.replicate (2 * depth) ' ', decide (c = ' ') = true :=
    fun c hmem => decide_eq_true (List.eq_of_mem_replicate hmem)
  rw [margin, toList_indent, List.takeWhile_append_of_pos hspaces, hline]
  simp [hc]

theorem indent_injective {depth : Nat} {line line' : String}
    (h : Outline.indent depth line = Outline.indent depth line') : line = line' := by
  have hlist := congrArg String.toList h
  rw [toList_indent, toList_indent] at hlist
  exact String.toList_inj.mp (List.append_cancel_left hlist)

/-- A line that is indented by some depth or more. -/
def IsIndented (depth : Nat) (line : String) : Prop :=
  ∃ further text, depth ≤ further ∧ LegibleLine text ∧ line = Outline.indent further text

theorem IsIndented.le_margin {depth : Nat} {line : String} (h : IsIndented depth line) :
    2 * depth ≤ margin line := by
  obtain ⟨further, text, hdepth, htext, rfl⟩ := h
  rw [margin_indent htext]
  omega

theorem IsIndented.controlFree {depth : Nat} {line : String} (h : IsIndented depth line) :
    IsControlFree line := by
  obtain ⟨further, text, -, htext, rfl⟩ := h
  rw [IsControlFree, toList_indent, List.forall_mem_append]
  refine ⟨fun c hc => ?_, htext.controlFree⟩
  obtain rfl := List.eq_of_mem_replicate hc
  exact Char.le_refl ' '

mutual

theorem indented_of_mem_lines {listing : Listing} (hlegible : Legible listing) {depth : Nat} :
    ∀ line ∈ listing.lines depth, IsIndented depth line := by
  cases listing with
  | node line below =>
    cases hlegible with
    | node hline hbelow =>
      rw [lines, List.forall_mem_cons]
      refine ⟨⟨depth, line, le_rfl, hline, rfl⟩, fun other hother => ?_⟩
      obtain ⟨further, text, hdepth, hother⟩ := indented_of_mem_linesOfAll hbelow other hother
      exact ⟨further, text, Nat.le_of_succ_le hdepth, hother⟩

theorem indented_of_mem_linesOfAll {listings : List Listing}
    (hlegible : ∀ listing ∈ listings, Legible listing) {depth : Nat} :
    ∀ line ∈ linesOfAll depth listings, IsIndented depth line := by
  cases listings with
  | nil => exact nofun
  | cons listing rest =>
    rw [List.forall_mem_cons] at hlegible
    rw [linesOfAll, List.forall_mem_append]
    exact ⟨indented_of_mem_lines hlegible.1, indented_of_mem_linesOfAll hlegible.2⟩

end

theorem margin_of_mem_head? {listings : List Listing}
    (hlegible : ∀ listing ∈ listings, Legible listing) {depth : Nat} :
    ∀ line ∈ (linesOfAll depth listings).head?, margin line = 2 * depth := by
  cases listings with
  | nil => exact nofun
  | cons listing rest =>
    rw [List.forall_mem_cons] at hlegible
    cases listing with
    | node line below =>
      cases hlegible.1 with
      | node hline hbelow =>
        rintro _ ⟨⟩
        exact margin_indent hline depth

/-- Listings can be told from their lines: those below a line end where the margin gets smaller. -/
theorem linesOfAll_injective {listings listings' : List Listing}
    (hlegible : ∀ listing ∈ listings, Legible listing)
    (hlegible' : ∀ listing ∈ listings', Legible listing) {depth : Nat}
    (h : linesOfAll depth listings = linesOfAll depth listings') : listings = listings' := by
  match listings, listings' with
  | [], [] => rfl
  | [], .node line' below' :: rest' => cases h
  | .node line below :: rest, [] => cases h
  | .node line below :: rest, .node line' below' :: rest' =>
    rw [List.forall_mem_cons] at hlegible hlegible'
    obtain ⟨⟨hline, hbelow⟩, hrest⟩ := hlegible
    obtain ⟨⟨hline', hbelow'⟩, hrest'⟩ := hlegible'
    simp only [linesOfAll, lines, List.cons_append] at h
    obtain ⟨hindent, hlines⟩ := List.cons.inj h
    have hinside : ∀ {listings : List Listing}, (∀ listing ∈ listings, Legible listing) →
        ∀ line ∈ linesOfAll (depth + 1) listings, 2 * depth < margin line := by
      intro listings hlegible line hmem
      have hmargin := (indented_of_mem_linesOfAll hlegible line hmem).le_margin
      omega
    have houtside : ∀ {listings : List Listing}, (∀ listing ∈ listings, Legible listing) →
        ∀ line ∈ (linesOfAll depth listings).head?, ¬ 2 * depth < margin line := by
      intro listings hlegible line hmem
      rw [margin_of_mem_head? hlegible line hmem]
      exact lt_irrefl _
    obtain ⟨hbelows, hrests⟩ := append_inj_of_boundary (2 * depth < margin ·) (hinside hbelow)
      (hinside hbelow') (houtside hrest) (houtside hrest') hlines
    rw [indent_injective hindent, linesOfAll_injective hbelow hbelow' hbelows,
      linesOfAll_injective hrest hrest' hrests]

end Listing

end CaseScript
