import CaseScript.Name.Basic
import CaseScript.Proofs.Doc.Steady
import CaseScript.Proofs.Js.StringLiteral
import CaseScript.Proofs.Text.Reading

/-!
# Tokens

The text of a script is cut into words, string literals and single marks. Spaces and newlines only
keep words apart, and a comma right before a closing bracket means nothing. So all ways to write a
document have the same tokens.
-/

namespace CaseScript
namespace Js

open Text

inductive Token where
  | word (w : String)
  | string (t : Text)
  | mark (c : Char)
  deriving DecidableEq, Repr

def isWordChar (c : Char) : Bool := Name.isPart c || c == '$'

/-- Is the character a token of its own wherever it stands between tokens? -/
def isMark (c : Char) : Bool := !(isSpacing c || isWordChar c || c == '"' || c == ',')

/-- Is a closing bracket the next that is not spacing? -/
def closesNext (s : List Char) : Bool := (s.dropWhile isSpacing).head?.any isClosing

def lex (s : List Char) : Option (List Token) :=
  match s with
  | [] => some []
  | c :: rest =>
    if isSpacing c then lex rest
    else if isWordChar c then
      (lex (rest.dropWhile isWordChar)).map
        (.word (String.ofList (c :: rest.takeWhile isWordChar)) :: ·)
    else if c = '"' then
      match _hread : literalUnits? rest with
      | none => none
      | some (units, after) => (lex after).map (.string (ofUnits units) :: ·)
    else if c = ',' ∧ closesNext rest = true then lex rest
    else (lex rest).map (.mark c :: ·)
termination_by s.length
decreasing_by
  · simp
  · have hle := (List.dropWhile_sublist isWordChar (l := rest)).length_le
    simp only [List.length_cons]
    omega
  · have hlt := length_of_literalUnits? _hread
    simp only [List.length_cons]
    omega
  · simp
  · simp

/-! ## One token after another -/

/-- Does a text have these tokens, whatever comes behind it, as long as that is an accepted end? -/
def Lexes (accepts : List Char → Prop) (s : List Char) (tokens : List Token) : Prop :=
  ∀ rest more, accepts rest → lex rest = some more → lex (s ++ rest) = some (tokens ++ more)

/-- Everything may come next. -/
def Anything (_ : List Char) : Prop := True

/-- What comes next does not continue a word. -/
def EndsWord : List Char → Prop := Ends isWordChar

section

variable {accepts accepts' : List Char → Prop} {s s' : List Char} {tokens tokens' : List Token}

theorem Lexes.mono (h : Lexes accepts s tokens) (haccepts : ∀ rest, accepts' rest → accepts rest) :
    Lexes accepts' s tokens := by
  intro rest more hrest hmore
  exact h rest more (haccepts rest hrest) hmore

theorem Lexes.weaken (h : Lexes Anything s tokens) : Lexes accepts s tokens :=
  h.mono fun _ _ => trivial

theorem Lexes.append (h : Lexes accepts s tokens) (h' : Lexes accepts' s' tokens')
    (haccepts : ∀ rest, accepts' rest → accepts (s' ++ rest)) :
    Lexes accepts' (s ++ s') (tokens ++ tokens') := by
  intro rest more hrest hmore
  rw [List.append_assoc, List.append_assoc]
  exact h _ _ (haccepts rest hrest) (h' rest more hrest hmore)

theorem Lexes.append_string {t t' : String} (h : Lexes Anything t.toList tokens)
    (h' : Lexes accepts t'.toList tokens') :
    Lexes accepts (t ++ t').toList (tokens ++ tokens') := by
  rw [String.toList_append]
  exact h.append h' fun _ _ => trivial

theorem lexes_nil : Lexes accepts [] [] := fun _ _ _ hmore => hmore

theorem lexes_spacing {c : Char} (hc : isSpacing c = true) : Lexes Anything [c] [] := by
  intro rest more _ hmore
  rw [List.singleton_append, lex, if_pos hc, hmore]
  rfl

theorem lexes_mark {c : Char} (hc : isMark c = true) : Lexes Anything [c] [.mark c] := by
  intro rest more _ hmore
  simp only [isMark, Bool.not_eq_true', Bool.or_eq_false_iff, beq_eq_false_iff_ne] at hc
  obtain ⟨⟨⟨hspacing, hword⟩, hquote⟩, hcomma⟩ := hc
  rw [List.singleton_append, lex, hspacing, hword, if_neg (by decide), if_neg (by decide),
    if_neg hquote, if_neg (by simp [hcomma]), hmore]
  rfl

/-- Is a text free of words, literals and commas, and not empty? -/
def IsMarks (s : String) : Prop :=
  (!s.toList.isEmpty && s.toList.all fun c => isSpacing c || isMark c) = true

instance (s : String) : Decidable (IsMarks s) := instDecidableEqBool _ _

theorem isMarks_iff {s : String} :
    IsMarks s ↔ s.toList ≠ [] ∧ ∀ c ∈ s.toList, isSpacing c = true ∨ isMark c = true := by
  simp [IsMarks]

/-- The tokens of a text of marks and spacing. -/
def marks (s : String) : List Token := (unspaced s.toList).map .mark

theorem lexes_marks {s : String} (hs : IsMarks s) : Lexes Anything s.toList (marks s) := by
  have hs := (isMarks_iff.mp hs).2
  unfold marks
  generalize s.toList = s at hs
  induction s with
  | nil => exact lexes_nil
  | cons c s ih =>
    rw [List.forall_mem_cons] at hs
    have hrest := ih hs.2
    by_cases hc : isSpacing c = true
    · have hdrop : unspaced (c :: s) = unspaced s := by simp [unspaced, hc]
      rw [hdrop]
      exact (lexes_spacing hc).append hrest fun _ _ => trivial
    · have hkeep : unspaced (c :: s) = c :: unspaced s := by simp [unspaced, hc]
      rw [hkeep]
      exact (lexes_mark (hs.1.resolve_left hc)).append hrest fun _ _ => trivial

def IsWord (w : String) : Prop := (!w.toList.isEmpty && w.toList.all isWordChar) = true

instance (w : String) : Decidable (IsWord w) := instDecidableEqBool _ _

theorem isWord_iff {w : String} :
    IsWord w ↔ w.toList ≠ [] ∧ ∀ c ∈ w.toList, isWordChar c = true := by
  simp [IsWord]

theorem not_isSpacing_of_isWordChar {c : Char} (h : isWordChar c = true) : isSpacing c = false := by
  simp only [isSpacing, Bool.or_eq_false_iff, beq_eq_false_iff_ne]
  refine ⟨?_, ?_⟩
  · rintro rfl
    exact absurd h (by decide)
  · rintro rfl
    exact absurd h (by decide)

theorem lexes_word {w : String} (hw : IsWord w) : Lexes EndsWord w.toList [.word w] := by
  obtain ⟨hne, hchars⟩ := isWord_iff.mp hw
  obtain ⟨c, s, hs⟩ := List.exists_cons_of_ne_nil hne
  have hw : String.ofList (c :: s) = w := by rw [← hs, String.ofList_toList]
  rw [hs] at hchars ⊢
  rw [List.forall_mem_cons] at hchars
  intro rest more hrest hmore
  rw [List.cons_append, lex, not_isSpacing_of_isWordChar hchars.1, hchars.1, if_neg (by decide),
    if_pos rfl, takeWhile_append hchars.2 hrest, dropWhile_append hchars.2 hrest, hmore, hw]
  rfl

/-- Marks do not continue a word. -/
theorem IsMarks.exists_cons {s : String} (hs : IsMarks s) :
    ∃ c s', s.toList = c :: s' ∧ isWordChar c = false := by
  obtain ⟨hne, hchars⟩ := isMarks_iff.mp hs
  obtain ⟨c, s', hs'⟩ := List.exists_cons_of_ne_nil hne
  refine ⟨c, s', hs', ?_⟩
  rcases hchars c (by rw [hs']; exact List.mem_cons_self) with hspacing | hmark
  · cases hword : isWordChar c with
    | false => rfl
    | true =>
      rw [not_isSpacing_of_isWordChar hword] at hspacing
      cases hspacing
  · simp only [isMark, Bool.not_eq_true', Bool.or_eq_false_iff] at hmark
    exact hmark.1.1.2

/-- A word and the marks that keep it apart from what follows. -/
theorem lexes_phrase (w s : String) (hw : IsWord w) (hs : IsMarks s) :
    Lexes Anything (w ++ s).toList (.word w :: marks s) := by
  obtain ⟨c, s', hs', hc⟩ := hs.exists_cons
  rw [String.toList_append]
  apply (lexes_word hw).append (lexes_marks hs)
  intro rest _
  rw [hs']
  exact ends_cons hc

theorem lexes_stringLiteral {t : Text} (ht : t.IsScalar) :
    Lexes Anything (Script.stringLiteral t).toList [.string t] := by
  intro rest more _ hmore
  have hread : literalUnits? (t.flatMap Script.literalPoint ++ '"' :: rest) =
      some (t.units, rest) := literalUnits?_written t rest
  rw [Script.stringLiteral, String.toList_ofList, List.cons_append, List.cons_append,
    List.append_assoc, List.singleton_append, lex, if_neg (by decide), if_neg (by decide),
    if_pos rfl]
  split
  · rename_i hnone
    rw [hread] at hnone
    cases hnone
  · rename_i units after hsome
    rw [hread] at hsome
    cases hsome
    rw [hmore, ofUnits_units ht]
    rfl

theorem lexes_comma : Lexes (fun rest => closesNext rest = false) [','] [.mark ','] := by
  intro rest more hrest hmore
  rw [List.singleton_append, lex, if_neg (by decide), if_neg (by decide), if_neg (by decide),
    if_neg (by simp [hrest]), hmore]
  rfl

theorem lexes_lastComma : Lexes (fun rest => closesNext rest = true) [','] [] := by
  intro rest more hrest hmore
  rw [List.singleton_append, lex, if_neg (by decide), if_neg (by decide), if_neg (by decide),
    if_pos ⟨rfl, hrest⟩, hmore]
  rfl

theorem lexes_spaces {s : List Char} (hs : ∀ c ∈ s, isSpacing c = true) :
    Lexes Anything s [] := by
  induction s with
  | nil => exact lexes_nil
  | cons c s ih =>
    rw [List.forall_mem_cons] at hs
    exact (lexes_spacing hs.1).append (ih hs.2) fun _ _ => trivial

theorem isSpacing_of_mem_newline {indent : Int} {c : Char} (h : c ∈ Doc.newline indent) :
    isSpacing c = true := by
  rcases List.mem_cons.mp h with rfl | h
  · rfl
  · rw [(List.mem_replicate.mp h).2]
    rfl

end

end Js
end CaseScript
