import CaseScript.Proofs.Name.Identifier

/-!
# Suggested names

A script can declare the identifier of every accepted name, and no two names share one. The nearest
valid name is always accepted; it is the name itself where this is accepted already.
-/

namespace CaseScript

/-! ## Identifiers of JavaScript -/

namespace Js

/-- An identifier may begin with a letter, an underscore or a dollar sign. Letters beyond ASCII, of
which scripts make no use, are left out. -/
def startsIdentifier (c : Char) : Bool := c.isAlpha || c == '_' || c == '$'

def continuesIdentifier (c : Char) : Bool := startsIdentifier c || c.isDigit

/-- The words that no declaration in strict code may give to a variable. -/
def keywords : List String :=
  ["await", "break", "case", "catch", "class", "const", "continue", "debugger", "default", "delete",
    "do", "else", "enum", "export", "extends", "false", "finally", "for", "function", "if",
    "import", "in", "instanceof", "new", "null", "return", "super", "switch", "this", "throw",
    "true", "try", "typeof", "var", "void", "while", "with", "yield", "let", "static", "implements",
    "interface", "package", "private", "protected", "public", "arguments", "eval"]

/-- Can a script declare a variable under this name? -/
def IsIdentifier (x : String) : Prop :=
  (∃ c rest, x.toList = c :: rest ∧ startsIdentifier c = true ∧
    ∀ d ∈ rest, continuesIdentifier d = true) ∧ x ∉ keywords

end Js

namespace Name

variable {name : Text}

theorem continuesIdentifier_of_isPart {c : Char} (h : isPart c = true) :
    Js.continuesIdentifier c = true := by
  simp only [isPart, Char.isAlphanum, Bool.or_eq_true] at h
  rcases h with (h | h) | h <;> simp [Js.continuesIdentifier, Js.startsIdentifier, h]

theorem startsIdentifier_of_isHead {c : Char} (h : isHead c = true) :
    Js.startsIdentifier c = true := by
  simp only [isHead, Bool.and_eq_true, Bool.not_eq_true'] at h
  have hpart := continuesIdentifier_of_isPart h.1
  simpa [Js.continuesIdentifier, h.2] using hpart

theorem keywords_subset_reserved : Js.keywords ⊆ reserved := by decide +kernel

theorem exists_cons_of_isValid (h : isValid name = true) :
    ∃ c rest, name.shown.toList = c :: rest ∧ isHead c = true ∧ ∀ d ∈ rest, isPart d = true := by
  have hparts := isPart_of_mem_shown h
  match name, h with
  | .scalar c :: rest, h =>
    have hshown : (Text.shown (.scalar c :: rest)).toList = c :: rest.map CodePoint.shown := by
      simp [Text.shown]
    rw [hshown, List.forall_mem_cons] at hparts
    simp only [isValid, Bool.and_eq_true] at h
    exact ⟨c, _, hshown, h.1, hparts.2⟩

/-- The dollar sign behind a reserved word may stand in an identifier. -/
theorem isIdentifier_identifier (h : isValid name = true) : Js.IsIdentifier (identifier name) := by
  obtain ⟨c, rest, hshown, hhead, hrest⟩ := exists_cons_of_isValid h
  have hcontinues : ∀ d ∈ rest, Js.continuesIdentifier d = true :=
    fun d hd => continuesIdentifier_of_isPart (hrest d hd)
  refine ⟨?_, fun hmem => identifier_notMem_reserved name (keywords_subset_reserved hmem)⟩
  rcases toList_identifier name with ⟨-, hlist⟩ | ⟨-, hlist⟩
  · exact ⟨c, rest, hlist.trans hshown, startsIdentifier_of_isHead hhead, hcontinues⟩
  · refine ⟨c, rest ++ ['$'], ?_, startsIdentifier_of_isHead hhead, ?_⟩
    · rw [hlist, hshown, List.cons_append]
    · rw [List.forall_mem_append, List.forall_mem_singleton]
      exact ⟨hcontinues, rfl⟩

/-! ## Suggestions -/

theorem isPart_repaired (p : CodePoint) : isPart (repaired p) = true := by
  cases p with
  | scalar c =>
    rw [repaired]
    split
    · assumption
    · rfl
  | surrogate offset => rfl

theorem repaired_of_isPartPoint {p : CodePoint} (h : isPartPoint p = true) :
    repaired p = p.shown := by
  cases p with
  | scalar c => exact if_pos h
  | surrogate offset => cases h

theorem isValid_ofList_cons (c : Char) (rest : List Char) :
    isValid (Text.ofString (String.ofList (c :: rest))) = (isHead c && rest.all isPart) := by
  simp [Text.ofString, isValid, List.all_map, Function.comp_def, isPartPoint]

theorem isValid_suggestion (name : Text) : isValid (Text.ofString (suggestion name)) = true := by
  have hparts : ∀ c ∈ name.map repaired, isPart c = true := by
    rw [List.forall_mem_map]
    exact fun p _ => isPart_repaired p
  unfold suggestion
  split
  · decide +kernel
  · rename_i c rest hlist
    rw [hlist, List.forall_mem_cons] at hparts
    split
    · rw [isValid_ofList_cons, Bool.and_eq_true, List.all_eq_true, List.forall_mem_cons]
      exact ⟨by decide, hparts⟩
    · rename_i hdigit
      rw [isValid_ofList_cons, Bool.and_eq_true, List.all_eq_true]
      exact ⟨by simp [isHead, hparts.1, hdigit], hparts.2⟩

/-- A valid name needs no repair. -/
theorem suggestion_of_isValid (h : isValid name = true) : suggestion name = name.shown := by
  have hrepaired : name.map repaired = name.map CodePoint.shown :=
    List.map_congr_left fun p hp => repaired_of_isPartPoint (isPartPoint_of_isValid h p hp)
  obtain ⟨c, rest, hshown, hhead, -⟩ := exists_cons_of_isValid h
  have hdigit : c.isDigit = false := by
    simp only [isHead, Bool.and_eq_true, Bool.not_eq_true'] at hhead
    exact hhead.2
  rw [Text.shown, String.toList_ofList] at hshown
  rw [suggestion, hrepaired, Text.shown, hshown]
  simp [hdigit]

theorem ofString_suggestion_eq_iff :
    Text.ofString (suggestion name) = name ↔ isValid name = true := by
  constructor
  · intro h
    rw [← h]
    exact isValid_suggestion name
  · intro h
    rw [suggestion_of_isValid h, ofString_shown h]

/-- Is there an identifier for a name? The place of the name matters only for the fault. -/
def IsAccepted (name : Text) : Prop := ∀ trail, ∃ x, identifierAt trail name = .ok x

theorem isAccepted_iff : IsAccepted name ↔ isValid name = true := by
  constructor
  · intro h
    obtain ⟨x, hx⟩ := h (.root "")
    exact (identifierAt_eq_ok.mp hx).1
  · intro h trail
    exact ⟨_, identifierAt_eq_ok.mpr ⟨h, rfl⟩⟩

/-- Accepted names are told apart by their identifiers, which a script can declare and which are
neither reserved words nor the identifier of a subject. What is suggested for a name is accepted; it
is the name itself just if the name is accepted, so nothing else is suggested in its place. A name
that is refused comes with a suggestion that is not. -/
theorem identifiers_and_suggestions :
    (∀ trail trail' name name' x, identifierAt trail name = .ok x →
      identifierAt trail' name' = .ok x → name = name') ∧
    (∀ trail name x, identifierAt trail name = .ok x →
      Js.IsIdentifier x ∧ x ∉ reserved ∧ x ≠ subject) ∧
    (∀ name, IsAccepted (Text.ofString (suggestion name)) ∧
      (Text.ofString (suggestion name) = name ↔ IsAccepted name) ∧
      suggestion (Text.ofString (suggestion name)) = suggestion name) ∧
    ∀ trail name fault, identifierAt trail name = .error fault →
      ∃ message, fault.diagnostic.suggestions = [⟨message, suggestion name⟩] := by
  refine ⟨?apart, ?legal, ?suggested, ?refused⟩
  case apart =>
    intro trail trail' name name' x h h'
    obtain ⟨hvalid, rfl⟩ := identifierAt_eq_ok.mp h
    obtain ⟨hvalid', hx⟩ := identifierAt_eq_ok.mp h'
    exact identifier_injective hvalid hvalid' hx.symm
  case legal =>
    intro trail name x h
    obtain ⟨hvalid, rfl⟩ := identifierAt_eq_ok.mp h
    exact ⟨isIdentifier_identifier hvalid, identifier_notMem_reserved name,
      identifier_ne_subject hvalid⟩
  case suggested =>
    intro name
    have hvalid := isValid_suggestion name
    refine ⟨isAccepted_iff.mpr hvalid, ?_, ?_⟩
    · rw [ofString_suggestion_eq_iff, isAccepted_iff]
    · rw [suggestion_of_isValid hvalid, Text.shown_ofString]
  case refused =>
    intro trail name fault h
    obtain ⟨-, rfl⟩ := identifierAt_eq_error h
    exact ⟨_, rfl⟩

/-- A name with a leading digit, a letter beyond ASCII and a dollar sign. -/
def unusable : Text := Text.ofString "1-é$"

theorem identifiers_and_suggestions_unusable :
    (∃ fault, identifierAt (.root "expr") unusable = .error fault ∧
      ∃ message, fault.diagnostic.suggestions = [⟨message, "_1___"⟩]) ∧
    IsAccepted (Text.ofString "_1___") ∧
    Js.IsIdentifier (identifier (Text.ofString "class")) ∧
    identifier (Text.ofString "class") = "class$" := by
  have hsuggestion : suggestion unusable = "_1___" := by decide +kernel
  have hclass : identifierAt (.root "expr") (Text.ofString "class") =
      .ok (identifier (Text.ofString "class")) := rfl
  obtain ⟨-, hlegal, hsuggested, hrefused⟩ := identifiers_and_suggestions
  have haccepted := (hsuggested unusable).1
  have hfault := hrefused (.root "expr") unusable _ rfl
  rw [hsuggestion] at haccepted hfault
  exact ⟨⟨_, rfl, hfault⟩, haccepted, (hlegal _ _ _ hclass).1, by decide +kernel⟩

end Name
end CaseScript
