import CaseScript.Proofs.Js.Token
import CaseScript.Proofs.Name.Identifier
import CaseScript.Script.Format
import Mathlib.Data.List.Forall2

/-!
# The tokens of scripts

A script that is made of literals, identifiers and what is built from them has the same tokens at
every width. Operations are left out, since an operator may be any text.
-/

namespace CaseScript

open Js Text

/-! ## Tokens of documents -/

namespace Doc

/-- Does a document have these tokens in whatever way it is written? -/
def Lexes (accepts : List Char → Prop) (doc : Doc) (tokens : List Token) : Prop :=
  ∀ s, doc.Allows s → Js.Lexes accepts s tokens

/-- Does a document begin with a character of a class in whatever way it is written? -/
def Begins (p : Char → Bool) (doc : Doc) : Prop :=
  ∀ s, doc.Allows s → ∃ c rest, s = c :: rest ∧ p c = true

/-- Can the character come right behind a word? -/
def isApart (c : Char) : Bool := !isWordChar c

/-- Can the character begin an item of a list? -/
def isFirst (c : Char) : Bool := !(isSpacing c || isClosing c)

variable {accepts accepts' : List Char → Prop} {p : Char → Bool} {first second : Doc}
  {tokens tokens' : List Token}

theorem lexes_text {t : String} (h : Js.Lexes accepts t.toList tokens) :
    (text t).Lexes accepts tokens := by
  rintro s rfl
  exact h

theorem lexes_empty : empty.Lexes accepts [] := by
  rintro s rfl
  exact lexes_nil

theorem lexes_line : line.Lexes Anything [] := by
  rintro s ⟨indent, rfl⟩
  exact lexes_spaces fun c => isSpacing_of_mem_newline

theorem lexes_softBreak : softBreak.Lexes Anything [] := by
  rintro s (rfl | ⟨indent, rfl⟩)
  · exact lexes_nil
  · exact lexes_spaces fun c => isSpacing_of_mem_newline

theorem lexes_space : space.Lexes Anything [] := by
  rintro s (rfl | ⟨indent, rfl⟩)
  · exact lexes_spacing rfl
  · exact lexes_spaces fun c => isSpacing_of_mem_newline

theorem Lexes.weaken {doc : Doc} (h : doc.Lexes Anything tokens) : doc.Lexes accepts tokens :=
  fun s hs => (h s hs).weaken

/-- Nothing is asked of the second document where the first one accepts any. -/
theorem Lexes.append (h : first.Lexes Anything tokens) (h' : second.Lexes accepts tokens') :
    (append first second).Lexes accepts (tokens ++ tokens') := by
  rintro s ⟨front, back, hfront, hback, rfl⟩
  exact (h front hfront).append (h' back hback) fun _ _ => trivial

theorem Lexes.append_empty (h : first.Lexes accepts tokens) :
    (Doc.append first empty).Lexes accepts tokens := by
  rintro s ⟨front, back, hfront, rfl, rfl⟩
  rw [List.append_nil]
  exact h front hfront

theorem Lexes.append_begins (h : first.Lexes accepts tokens)
    (h' : second.Lexes accepts' tokens') (hbegins : second.Begins p)
    (haccepts : ∀ c rest, p c = true → accepts (c :: rest)) :
    (Doc.append first second).Lexes accepts' (tokens ++ tokens') := by
  rintro s ⟨front, back, hfront, hback, rfl⟩
  apply (h front hfront).append (h' back hback)
  intro rest _
  obtain ⟨c, back', rfl, hc⟩ := hbegins back hback
  exact haccepts c _ hc

theorem endsWord_of_isApart (c : Char) (rest : List Char) (h : isApart c = true) :
    EndsWord (c :: rest) := by
  apply ends_cons
  simpa [isApart] using h

theorem Lexes.append_apart (h : first.Lexes EndsWord tokens) (h' : second.Lexes accepts tokens')
    (hbegins : second.Begins isApart) :
    (Doc.append first second).Lexes accepts (tokens ++ tokens') :=
  h.append_begins h' hbegins endsWord_of_isApart

theorem begins_text {t : String} {c : Char} {s : List Char} (ht : t.toList = c :: s)
    (hc : p c = true) : (text t).Begins p := by
  rintro _ rfl
  exact ⟨c, s, ht, hc⟩

theorem lexes_marks_text {t : String} (h : IsMarks t) : (text t).Lexes Anything (marks t) :=
  lexes_text (lexes_marks h)

theorem begins_marks {t : String} (h : IsMarks t) : (text t).Begins isApart := by
  obtain ⟨c, s, ht, hc⟩ := h.exists_cons
  exact begins_text ht (by simp [isApart, hc])

theorem lexes_phrase_text (w t : String) (hw : IsWord w) (ht : IsMarks t) :
    (text (w ++ t)).Lexes Anything (.word w :: marks t) :=
  lexes_text (lexes_phrase w t hw ht)

theorem begins_line (h : p '\n' = true) : line.Begins p := by
  rintro s ⟨indent, rfl⟩
  exact ⟨'\n', _, rfl, h⟩

theorem Begins.append (h : first.Begins p) (second : Doc) : (append first second).Begins p := by
  rintro s ⟨front, back, hfront, -, rfl⟩
  obtain ⟨c, rest, rfl, hc⟩ := h front hfront
  exact ⟨c, rest ++ back, rfl, hc⟩

/-- Marks behind a document keep what comes next apart from it. -/
theorem Lexes.append_marks (h : first.Lexes EndsWord tokens) {t : String} (ht : IsMarks t)
    (h' : second.Lexes accepts tokens') :
    (Doc.append first (Doc.append (text t) second)).Lexes accepts
      (tokens ++ (marks t ++ tokens')) :=
  h.append_apart ((lexes_marks_text ht).append h') ((begins_marks ht).append second)

/-- Separated documents have the tokens of each with those of the separator between neighbours. -/
theorem lexes_join {separator : Doc} {between : List Token} {docs : List Doc}
    {parts : List (List Token)} (hseparator : separator.Lexes accepts between)
    (hapart : separator.Begins isApart) (haccepts : ∀ c rest, p c = true → accepts (c :: rest))
    (h : List.Forall₂ (fun doc tokens => doc.Lexes EndsWord tokens ∧ doc.Begins p) docs parts) :
    (join separator docs).Lexes EndsWord (between.intercalate parts) ∧
      (docs ≠ [] → (join separator docs).Begins p) := by
  induction h with
  | nil => exact ⟨lexes_empty, fun hne => absurd rfl hne⟩
  | cons hfirst hrest ih =>
    rename_i doc tokens docs parts
    refine ⟨?_, fun _ => ?_⟩
    · cases hrest with
      | nil =>
        rw [List.intercalate_singleton]
        exact hfirst.1.append_empty
      | cons hsecond hrest =>
        rw [List.intercalate_cons_cons, List.append_assoc]
        have hjoin := hseparator.append_begins ih.1 (ih.2 (by simp)) haccepts
        exact hfirst.1.append_apart hjoin (hapart.append _)
    · cases hrest with
      | nil => exact hfirst.2.append _
      | cons hsecond hrest => exact hfirst.2.append _

theorem closesNext_of_isFirst (c : Char) (rest : List Char) (h : isFirst c = true) :
    closesNext (c :: rest) = false := by
  simp only [isFirst, Bool.not_eq_true', Bool.or_eq_false_iff] at h
  simp [closesNext, h]

end Doc

namespace Script

open Doc

/-! ## Lists in brackets -/

/-- The tokens of a list whose items have these tokens. -/
def bracketed (opening : Char) (parts : List (List Token)) (closing : Char) : List Token :=
  .mark opening :: ([.mark ','].intercalate parts ++ [.mark closing])

theorem lexes_comma : comma.Lexes (fun rest => closesNext rest = false) [.mark ','] := by
  rintro s ⟨front, back, rfl, hback, rfl⟩
  have hspaces : ∀ c ∈ back, isSpacing c = true := by
    rcases hback with rfl | ⟨indent, rfl⟩
    · exact List.all_eq_true.mp rfl
    · exact fun c => isSpacing_of_mem_newline
  apply Js.lexes_comma.append (lexes_spaces hspaces).weaken
  intro rest hrest
  rw [closesNext, List.dropWhile_append_of_pos hspaces]
  exact hrest

/-- The comma of a broken group before its closing bracket is no token. -/
theorem lexes_lastComma {close : Char} (hclose : isClosing close = true) :
    (brk "" ",").Lexes (fun rest => ∃ s, rest = close :: s) [] := by
  have hspacing : isSpacing close = false := by
    rcases isClosing_iff.mp hclose with rfl | rfl <;> rfl
  rintro s (rfl | ⟨indent, rfl⟩)
  · exact lexes_nil
  · apply Js.lexes_lastComma.append (lexes_spaces fun c => isSpacing_of_mem_newline).weaken
    rintro _ ⟨s, rfl⟩
    rw [closesNext, List.dropWhile_append_of_pos fun c => isSpacing_of_mem_newline]
    simp [hspacing, hclose]

theorem lexes_enclosed {opening closing : String} {open_ close : Char}
    (hopening : opening.toList = [open_]) (hopen : isMark open_ = true)
    (hclosing : closing.toList = [close]) (hclose : isClosing close = true) {docs : List Doc}
    {parts : List (List Token)}
    (h : List.Forall₂ (fun doc tokens => doc.Lexes EndsWord tokens ∧ doc.Begins isFirst) docs
      parts) :
    (enclosed opening docs closing).Lexes Anything (bracketed open_ parts close) := by
  have hmark : isMark close = true := by
    rcases isClosing_iff.mp hclose with rfl | rfl <;> decide
  have hfirst : Js.Lexes Anything opening.toList [.mark open_] := by
    rw [hopening]
    exact lexes_mark hopen
  have hlast : Js.Lexes Anything closing.toList [.mark close] := by
    rw [hclosing]
    exact lexes_mark hmark
  cases h with
  | nil =>
    apply lexes_text
    rw [String.toList_append]
    exact hfirst.append hlast fun _ _ => trivial
  | cons hitem hrest =>
    rename_i doc tokens docs parts
    have hcomma : comma.Begins isApart := (begins_text rfl (by decide)).append _
    have hitems := (lexes_join lexes_comma hcomma closesNext_of_isFirst (.cons hitem hrest)).1
    have hend : (append (brk "" ",") (append (text closing) empty)).Lexes Anything
        [.mark close] := by
      rw [← List.nil_append [Token.mark close]]
      apply (lexes_lastComma hclose).append_begins (p := (· == close))
      · exact (lexes_text hlast).append_empty
      · exact (begins_text hclosing (by simp)).append _
      · intro c rest hc
        exact ⟨rest, by rw [eq_of_beq hc]⟩
    have happart : (append (brk "" ",") (append (text closing) empty)).Begins isApart := by
      rintro s ⟨front, back, hfront, ⟨_, _, rfl, rfl, rfl⟩, rfl⟩
      rcases hfront with rfl | ⟨indent, rfl⟩
      · refine ⟨close, [], by simp [hclosing], ?_⟩
        simp only [isMark, Bool.not_eq_true', Bool.or_eq_false_iff] at hmark
        simp [isApart, hmark]
      · exact ⟨',', _, rfl, by decide⟩
    have hnest : (nestIfBroken indentation (softBreak ++ join comma (doc :: docs))).Lexes EndsWord
        ([.mark ','].intercalate (tokens :: parts)) := lexes_softBreak.append hitems
    exact (lexes_text hfirst).append (hnest.append_apart hend happart)

end Script

/-! ## Tokens of literals, references and checks -/

def Literal.tokens : Literal → List Token
  | int value =>
    if 0 ≤ value then [.word (toString value.toNat)]
    else [.mark '-', .word (toString (-value).toNat)]
  | string value => [.string value]
  | bool value => [.word (if value then "true" else "false")]

/-- Is the literal no string with a surrogate of its own in it? -/
def Literal.IsScalar : Literal → Prop
  | string value => value.IsScalar
  | int _ | bool _ => True

namespace Ref

/-- What a reference starts from. -/
def root {σ : Type} : Ref σ → σ
  | subject s => s
  | item list _ | rest list _ => list.root

/-- The tokens behind the identifier that a reference starts from. -/
def steps {σ : Type} : Ref σ → List Token
  | subject _ => []
  | item list index => list.steps ++ [.mark '[', .word (toString index), .mark ']']
  | rest list start =>
    list.steps ++ [.mark '.', .word "slice", .mark '(', .word (toString start), .mark ')']

def tokens (place : Ref String) : List Token := .word place.root :: place.steps

end Ref

namespace Check

def tokens : Check String → List Token
  | length ref count atLeast =>
    [.word "Array", .mark '.', .word "isArray", .mark '('] ++ (ref.tokens ++ (marks ")&&" ++
      (ref.tokens ++ ([.mark '.', .word "length"] ++
        (marks (if atLeast then ">=" else "===") ++ [.word (toString count)])))))
  | equals ref literal => ref.tokens ++ (marks "===" ++ literal.tokens)

/-- A check of a subject that can be read back. -/
def Legible : Check String → Prop
  | length ref _ _ => ref.root = Name.subject
  | equals ref literal => ref.root = Name.subject ∧ literal.IsScalar

end Check

namespace Script

open Doc

theorem isWord_toString (n : Nat) : IsWord (toString n) := by
  rw [isWord_iff]
  refine ⟨toString_ne_nil n, ?_⟩
  intro c hc
  have hdigit := isDigit_of_mem_toString hc
  simp [isWordChar, Name.isPart, Char.isAlphanum, hdigit]

theorem isWord_of_identifies {identifier : String} (h : Name.Identifies identifier) :
    IsWord identifier := by
  obtain ⟨name, hvalid, rfl⟩ := h
  have hpart := Name.isPart_of_mem_shown hvalid
  have hne := Name.shown_ne_empty hvalid
  rw [isWord_iff]
  rcases Name.toList_identifier name with ⟨-, hlist⟩ | ⟨-, hlist⟩
  · rw [hlist]
    refine ⟨hne, ?_⟩
    intro c hc
    simp [isWordChar, hpart c hc]
  · rw [hlist]
    refine ⟨by simp, ?_⟩
    intro c hc
    rw [List.mem_append, List.mem_singleton] at hc
    rcases hc with hc | rfl
    · simp [isWordChar, hpart c hc]
    · decide

theorem isFirst_of_isWordChar {c : Char} (h : isWordChar c = true) : isFirst c = true := by
  have hclosing : isClosing c = false := by
    rw [← Bool.not_eq_true, isClosing_iff]
    rintro (rfl | rfl) <;> cases h
  simp [isFirst, not_isSpacing_of_isWordChar h, hclosing]

/-- A word begins with a character of it, whatever text is added. -/
theorem begins_word {w : String} (h : IsWord w) (t : String) : (text (w ++ t)).Begins isFirst := by
  obtain ⟨hne, hchars⟩ := isWord_iff.mp h
  obtain ⟨c, s, hs⟩ := List.exists_cons_of_ne_nil hne
  have hc : isWordChar c = true := hchars c (by rw [hs]; exact List.mem_cons_self)
  apply begins_text (c := c) (s := s ++ t.toList)
  · rw [String.toList_append, hs]
    rfl
  · exact isFirst_of_isWordChar hc

theorem lexes_name {identifier : String} (h : IsWord identifier) :
    (text identifier).Lexes EndsWord [.word identifier] ∧ (text identifier).Begins isFirst := by
  have hbegins := begins_word h ""
  rw [String.append_empty] at hbegins
  exact ⟨lexes_text (lexes_word h), hbegins⟩

theorem lexes_literal {value : Literal} (h : value.IsScalar) :
    (text value.written).Lexes EndsWord value.tokens ∧ (text value.written).Begins isFirst := by
  cases value with
  | int n =>
    rw [Literal.written_int, Literal.tokens]
    split
    · exact lexes_name (isWord_toString _)
    · refine ⟨lexes_text ?_, begins_text (c := '-') (String.toList_append ..) (by decide)⟩
      rw [String.toList_append]
      exact (lexes_mark (by decide)).append (lexes_word (isWord_toString _)) fun _ _ => trivial
  | string t =>
    refine ⟨lexes_text (lexes_stringLiteral h).weaken, ?_⟩
    exact begins_text (c := '"') (String.toList_ofList ..) (by decide)
  | bool b => cases b <;> exact lexes_name (by decide)

theorem lexes_ref {place : Ref String} (h : IsWord place.root) :
    (place.doc text).Lexes EndsWord place.tokens ∧ (place.doc text).Begins isFirst := by
  induction place with
  | subject s => exact lexes_name h
  | item list index ih =>
    obtain ⟨hlist, hbegins⟩ := ih h
    refine ⟨?_, hbegins.append _⟩
    have htext : Js.Lexes Anything ("[" ++ toString index ++ "]").toList
        [.mark '[', .word (toString index), .mark ']'] := by
      rw [String.append_assoc]
      exact (lexes_marks (s := "[") (by decide)).append_string
        (lexes_phrase (toString index) "]" (isWord_toString index) (by decide))
    have hbegin :
        ("[" ++ toString index ++ "]").toList = '[' :: (toString index ++ "]").toList := by
      rw [String.append_assoc, String.toList_append]
      rfl
    exact hlist.append_apart (lexes_text htext).weaken (begins_text hbegin (by decide))
  | rest list start ih =>
    obtain ⟨hlist, hbegins⟩ := ih h
    refine ⟨?_, hbegins.append _⟩
    have hsplit : ".slice(" ++ toString start ++ ")" =
        "." ++ (("slice" ++ "(") ++ (toString start ++ ")")) := by
      rw [← String.append_assoc, ← String.append_assoc]
      rfl
    have htext : Js.Lexes Anything (".slice(" ++ toString start ++ ")").toList
        [.mark '.', .word "slice", .mark '(', .word (toString start), .mark ')'] := by
      have hslice := lexes_phrase "slice" "(" (by decide) (by decide)
      have hstart := lexes_phrase (toString start) ")" (isWord_toString start) (by decide)
      rw [hsplit]
      exact (lexes_marks (s := ".") (by decide)).append_string (hslice.append_string hstart)
    have hbegin : (".slice(" ++ toString start ++ ")").toList =
        '.' :: ("slice" ++ "(" ++ (toString start ++ ")")).toList := by
      rw [hsplit, String.toList_append]
      rfl
    exact hlist.append_apart (lexes_text htext).weaken (begins_text hbegin (by decide))

theorem lexes_conjunctionMark : conjunctionMark.Lexes Anything (marks "&&") :=
  (lexes_marks_text (t := " &&") (by decide)).append lexes_space

theorem begins_conjunctionMark : conjunctionMark.Begins isApart :=
  (begins_marks (by decide)).append _

theorem lexes_check {check : Check String} (h : check.Legible) :
    (check.doc text).Lexes EndsWord check.tokens ∧ (check.doc text).Begins isFirst := by
  have hsubject : IsWord Name.subject := by decide
  cases check with
  | length ref count atLeast =>
    have hroot : IsWord ref.root := by
      rw [show ref.root = _ from h]
      exact hsubject
    obtain ⟨href, hbegins⟩ := lexes_ref hroot
    have harray : (text "Array.isArray(").Lexes Anything
        [.word "Array", .mark '.', .word "isArray", .mark '('] := by
      have hclass := lexes_phrase "Array" "." (by decide) (by decide)
      have hmethod := lexes_phrase "isArray" "(" (by decide) (by decide)
      exact lexes_text (hclass.append hmethod fun _ _ => trivial)
    have hlength : (text ".length").Lexes EndsWord [.mark '.', .word "length"] := by
      have hword := lexes_word (w := "length") (by decide)
      exact lexes_text ((lexes_mark (by decide)).append hword fun _ _ => trivial)
    have hcompare : IsMarks (if atLeast then " >= " else " === ") := by
      cases atLeast <;> decide
    have hmarks : marks (if atLeast then " >= " else " === ") =
        marks (if atLeast then ">=" else "===") := by
      cases atLeast <;> rfl
    have hcount := (lexes_name (isWord_toString count)).1.append_empty
    have htail := hlength.append_marks hcompare hcount
    rw [hmarks] at htail
    have hdot : (text ".length").Begins isApart := begins_text (c := '.') rfl (by decide)
    have hsecond := lexes_conjunctionMark.append (href.append_apart htail (hdot.append _))
    exact ⟨harray.append (href.append_marks (t := ")") (by decide) hsecond),
      (begins_word (w := "Array") (by decide) ".isArray(").append _⟩
  | equals ref literal =>
    obtain ⟨hroot, hscalar⟩ := h
    have hword : IsWord ref.root := by
      rw [hroot]
      exact hsubject
    obtain ⟨href, hbegins⟩ := lexes_ref hword
    have hliteral := (lexes_literal hscalar).1.append_empty
    exact ⟨href.append_marks (t := " === ") (by decide) hliteral, hbegins.append _⟩

/-! ## Tokens of terms and statements -/

mutual

def Term.tokens : Term → List Token
  | .literal value => value.tokens
  | .name identifier => [.word identifier]
  | .array items => bracketed '[' (Term.tokensOfEach items) ']'
  | .operation _ _ _ => []
  | .arrow params body =>
    bracketed '(' (params.map fun param => [.word param]) ')' ++ (marks "=>" ++ body.tokens)
  | .call function args =>
    (if function.needsParens then .mark '(' :: (function.tokens ++ [.mark ')'])
      else function.tokens) ++ bracketed '(' (Term.tokensOfEach args) ')'
  | .ref place => place.tokens
  | .block body => marks "(()=>\x7b" ++ ((Stmt.tokensOfEach body).flatten ++ marks "\x7d)()")

def Term.tokensOfEach : List Term → List (List Token)
  | [] => []
  | term :: rest => term.tokens :: Term.tokensOfEach rest

def Stmt.tokens : Stmt → List Token
  | .declare identifier value =>
    [.word "let", .word identifier, .mark '='] ++ (value.tokens ++ [.mark ';'])
  | .give value => .word "return" :: (value.tokens ++ [.mark ';'])
  | .guarded checks body =>
    [.word "if", .mark '('] ++ ((marks "&&").intercalate (checks.map Check.tokens) ++
      (marks ")\x7b" ++ ((Stmt.tokensOfEach body).flatten ++ [.mark '\x7d'])))
  | .fail =>
    [.word "throw", .word "new", .word "Error", .mark '(', .string (Text.ofString failureMessage),
      .mark ')', .mark ';']

def Stmt.tokensOfEach : List Stmt → List (List Token)
  | [] => []
  | stmt :: rest => stmt.tokens :: Stmt.tokensOfEach rest

end

mutual

/-- Is a term free of operations and of names and texts that cannot be told apart from others? -/
def Term.Legible : Term → Prop
  | .literal value => value.IsScalar
  | .name identifier => Name.Identifies identifier
  | .array items => Term.AllLegible items
  | .operation _ _ _ => False
  | .arrow params body => (∀ param ∈ params, Name.Identifies param) ∧ body.Legible
  | .call function args => function.Legible ∧ Term.AllLegible args
  | .ref place => place.root = Name.subject
  | .block body => Stmt.AllLegible body

def Term.AllLegible : List Term → Prop
  | [] => True
  | term :: rest => term.Legible ∧ Term.AllLegible rest

def Stmt.Legible : Stmt → Prop
  | .declare identifier value =>
    (identifier = Name.subject ∨ Name.Identifies identifier) ∧ value.Legible
  | .give value => value.Legible
  | .guarded checks body =>
    checks ≠ [] ∧ (∀ check ∈ checks, check.Legible) ∧ Stmt.AllLegible body
  | .fail => True

def Stmt.AllLegible : List Stmt → Prop
  | [] => True
  | stmt :: rest => stmt.Legible ∧ Stmt.AllLegible rest

end

/-! ## Every layout has the tokens of its term -/

theorem lexes_declaration {identifier : String} (h : IsWord identifier) {value : Doc}
    {tokens : List Token} (hvalue : value.Lexes EndsWord tokens) :
    (declaration identifier value).Lexes Anything
      ([.word "let", .word identifier, .mark '='] ++ (tokens ++ [.mark ';'])) := by
  have hsplit : "let " ++ identifier ++ " = " = ("let" ++ " ") ++ (identifier ++ " = ") := by
    rw [String.append_assoc]
    rfl
  have hhead : (text ("let " ++ identifier ++ " = ")).Lexes Anything
      [.word "let", .word identifier, .mark '='] := by
    rw [hsplit]
    apply lexes_text
    exact (lexes_phrase "let" " " (by decide) (by decide)).append_string
      (lexes_phrase identifier " = " h (by decide))
  exact hhead.append (hvalue.append_marks (t := ";") (by decide) lexes_empty)

theorem lexes_giving {value : Doc} {tokens : List Token} (hvalue : value.Lexes EndsWord tokens) :
    (giving value).Lexes Anything (.word "return" :: (tokens ++ [.mark ';'])) := by
  have hhead := lexes_phrase_text "return" " " (by decide) (by decide)
  exact hhead.append (hvalue.append_marks (t := ";") (by decide) lexes_empty)

theorem lexes_failure : failure.Lexes Anything Stmt.fail.tokens := by
  have hsplit : "throw new Error(" ++ stringLiteral (Text.ofString failureMessage) ++ ");" =
      ("throw" ++ " ") ++ (("new" ++ " ") ++ (("Error" ++ "(") ++
        (stringLiteral (Text.ofString failureMessage) ++ ");"))) := by
    simp only [← String.append_assoc]
    rfl
  have hscalar : (Text.ofString failureMessage).IsScalar := by
    intro p hp
    obtain ⟨c, -, rfl⟩ := List.mem_map.mp hp
    exact ⟨c, rfl⟩
  have hthrow := lexes_phrase "throw" " " (by decide) (by decide)
  have hnew := lexes_phrase "new" " " (by decide) (by decide)
  have herror := lexes_phrase "Error" "(" (by decide) (by decide)
  have hend := lexes_marks (s := ");") (by decide)
  apply lexes_text
  rw [hsplit]
  exact hthrow.append_string (hnew.append_string (herror.append_string
    ((lexes_stringLiteral hscalar).append_string hend)))

/-- Statements on lines of their own, of which the first stands behind a newline. -/
theorem lexes_indented {docs : List Doc} {parts : List (List Token)}
    (h : List.Forall₂ (fun doc tokens => doc.Lexes Anything tokens ∧ doc.Begins isFirst) docs
      parts) :
    (indented docs).Lexes EndsWord parts.flatten := by
  have hparts : List.intercalate [] parts = parts.flatten := by
    clear h
    induction parts with
    | nil => rfl
    | cons tokens parts ih =>
      cases parts with
      | nil => simp
      | cons next parts =>
        rw [List.intercalate_cons_cons, ih, List.append_nil]
        rfl
  have hweak := h.imp (S := fun doc tokens => doc.Lexes EndsWord tokens ∧ doc.Begins isFirst)
    fun doc tokens hdoc => ⟨hdoc.1.weaken, hdoc.2⟩
  have hjoin := (lexes_join lexes_line (begins_line (by decide)) (fun _ _ _ => trivial) hweak).1
  rw [hparts] at hjoin
  exact lexes_line.append hjoin

theorem lexes_immediate {docs : List Doc} {tokens : List Token}
    (h : (indented docs).Lexes EndsWord tokens) :
    (immediate docs).Lexes Anything (marks "(()=>\x7b" ++ (tokens ++ marks "\x7d)()")) := by
  have hhead : (text "(() => \x7b").Lexes Anything (marks "(()=>\x7b") :=
    lexes_marks_text (by decide)
  have hend : (text "\x7d)()").Lexes Anything (marks "\x7d)()") := lexes_marks_text (by decide)
  exact hhead.append (h.append_apart (lexes_line.append hend.append_empty)
    ((begins_line (by decide)).append _))

theorem lexes_conditional {tests body : List Doc} {parts : List (List Token)}
    {tokens : List Token} (htests : List.Forall₂
      (fun doc tokens => doc.Lexes EndsWord tokens ∧ doc.Begins isFirst) tests parts)
    (hbody : (indented body).Lexes EndsWord tokens) :
    (conditional tests body).Lexes Anything ([.word "if", .mark '('] ++
      ((marks "&&").intercalate parts ++ (marks ")\x7b" ++ (tokens ++ [.mark '\x7d'])))) := by
  have hhead : (text "if (").Lexes Anything [.word "if", .mark '('] :=
    lexes_phrase_text "if" " (" (by decide) (by decide)
  have hjoin := (lexes_join lexes_conjunctionMark begins_conjunctionMark (fun _ _ _ => trivial)
    htests).1
  have hopen : (text ") \x7b").Lexes Anything (marks ")\x7b") := lexes_marks_text (by decide)
  have hclose : (text "\x7d").Lexes Anything [.mark '\x7d'] := lexes_marks_text (by decide)
  have hsoft : (softBreak ++ append (text ") \x7b") empty).Begins isApart := by
    rintro s ⟨front, back, hfront, ⟨_, _, rfl, rfl, rfl⟩, rfl⟩
    rcases hfront with rfl | ⟨indent, rfl⟩
    · exact ⟨')', _, rfl, by decide⟩
    · exact ⟨'\n', _, rfl, by decide⟩
  have hnest : (nest indentation (softBreak ++ conjunction tests)).Lexes EndsWord
      ((marks "&&").intercalate parts) := lexes_softBreak.append hjoin
  have hgroup := hhead.append (hnest.append_apart (lexes_softBreak.append hopen.append_empty) hsoft)
  have hrest := hbody.append_apart (lexes_line.append hclose.append_empty)
    ((begins_line (by decide)).append _)
  have hall := hgroup.append hrest
  simp only [List.nil_append, List.append_assoc] at hall ⊢
  exact hall

theorem lexes_arrowDoc {params : List String} (h : ∀ param ∈ params, IsWord param) {body : Doc}
    {tokens : List Token} (hbody : body.Lexes EndsWord tokens) :
    (arrowDoc params body).Lexes EndsWord
      (bracketed '(' (params.map fun param => [.word param]) ')' ++ (marks "=>" ++ tokens)) := by
  have hparams : List.Forall₂
      (fun doc tokens => doc.Lexes EndsWord tokens ∧ doc.Begins isFirst) (params.map text)
      (params.map fun param => [.word param]) := by
    induction params with
    | nil => exact .nil
    | cons param rest ih =>
      rw [List.forall_mem_cons] at h
      exact .cons (lexes_name h.1) (ih h.2)
  have harrow : (text " =>").Lexes Anything (marks "=>") := lexes_marks_text (by decide)
  have hnest : (nestIfBroken indentation (space ++ body)).Lexes EndsWord tokens :=
    lexes_space.append hbody
  exact (lexes_enclosed rfl (by decide) rfl rfl hparams).append
    (harrow.append hnest.append_empty)

theorem begins_enclosed {opening : String} {c : Char} (hopening : opening.toList = [c])
    (hc : isFirst c = true) (docs : List Doc) (closing : String) :
    (enclosed opening docs closing).Begins isFirst := by
  unfold enclosed
  split
  · apply begins_text (c := c) (s := closing.toList) _ hc
    rw [String.toList_append, hopening]
    rfl
  · exact (begins_text hopening hc).append _

mutual

theorem lexes_doc {term : Term} (h : term.Legible) :
    term.doc.Lexes EndsWord term.tokens ∧ term.doc.Begins isFirst := by
  cases term with
  | literal value => exact lexes_literal h
  | name identifier => exact lexes_name (isWord_of_identifies h)
  | array items =>
    have hitems : (wrapped "[" (Term.docs items) "]").Lexes Anything
        (bracketed '[' (Term.tokensOfEach items) ']') :=
      lexes_enclosed rfl (by decide) rfl rfl (lexes_docs h)
    exact ⟨hitems.weaken, begins_enclosed rfl (by decide) _ _⟩
  | operation op left right => exact h.elim
  | arrow params body =>
    obtain ⟨hparams, hbody⟩ := h
    have hwords := fun param hparam => isWord_of_identifies (hparams param hparam)
    have hbegins : (enclosed "(" (params.map text) ")").Begins isFirst :=
      begins_enclosed rfl (by decide) _ _
    exact ⟨lexes_arrowDoc hwords (lexes_doc hbody).1, hbegins.append _⟩
  | call function args =>
    obtain ⟨hfunction, hargs⟩ := h
    obtain ⟨hdoc, hbegins⟩ := lexes_doc hfunction
    have hitems : (wrapped "(" (Term.docs args) ")").Lexes Anything
        (bracketed '(' (Term.tokensOfEach args) ')') :=
      lexes_enclosed rfl (by decide) rfl rfl (lexes_docs hargs)
    have hapart : (wrapped "(" (Term.docs args) ")").Begins isApart := by
      unfold wrapped enclosed
      split
      · exact begins_text (c := '(') rfl (by decide)
      · exact (begins_text (c := '(') rfl (by decide)).append _
    rw [Term.doc, Term.tokens, parenthesized]
    split
    · have hopen : (text "(").Lexes Anything [.mark '('] := lexes_marks_text (by decide)
      have hempty : empty.Lexes Anything [] := lexes_empty
      have hparens := hopen.append (hdoc.append_marks (t := ")") (by decide) hempty)
      exact ⟨(hparens.append hitems).weaken,
        ((begins_text (c := '(') rfl (by decide)).append _).append _⟩
    · exact ⟨(hdoc.append_apart hitems hapart).weaken, hbegins.append _⟩
  | ref place =>
    apply lexes_ref
    rw [show place.root = _ from h]
    decide
  | block body =>
    have hbody := lexes_immediate (lexes_indented (lexes_stmtDocs h))
    exact ⟨hbody.weaken, (begins_text (c := '(') rfl (by decide)).append _⟩

theorem lexes_docs {terms : List Term} (h : Term.AllLegible terms) :
    List.Forall₂ (fun doc tokens => doc.Lexes EndsWord tokens ∧ doc.Begins isFirst)
      (Term.docs terms) (Term.tokensOfEach terms) := by
  cases terms with
  | nil => exact .nil
  | cons term rest => exact .cons (lexes_doc h.1) (lexes_docs h.2)

theorem lexes_stmtDoc {stmt : Stmt} (h : stmt.Legible) :
    stmt.doc.Lexes Anything stmt.tokens ∧ stmt.doc.Begins isFirst := by
  cases stmt with
  | declare identifier value =>
    obtain ⟨hidentifier, hvalue⟩ := h
    have hword : IsWord identifier := by
      rcases hidentifier with rfl | hidentifies
      · decide
      · exact isWord_of_identifies hidentifies
    have hbegins := (begins_word (w := "let") (by decide) (" " ++ identifier ++ " = ")).append
      (concat [value.doc, text ";"])
    rw [String.append_assoc, ← String.append_assoc] at hbegins
    rw [← String.append_assoc] at hbegins
    exact ⟨lexes_declaration hword (lexes_doc hvalue).1, hbegins⟩
  | give value =>
    exact ⟨lexes_giving (lexes_doc h).1, (begins_text (c := 'r') rfl (by decide)).append _⟩
  | guarded checks body =>
    obtain ⟨-, hchecks, hbody⟩ := h
    have htests : List.Forall₂ (fun doc tokens => doc.Lexes EndsWord tokens ∧ doc.Begins isFirst)
        (checks.map (·.doc text)) (checks.map Check.tokens) := by
      clear hbody
      induction checks with
      | nil => exact .nil
      | cons check rest ih =>
        rw [List.forall_mem_cons] at hchecks
        exact .cons (lexes_check hchecks.1) (ih hchecks.2)
    exact ⟨lexes_conditional htests (lexes_indented (lexes_stmtDocs hbody)),
      ((begins_text (c := 'i') rfl (by decide)).append _).append _⟩
  | fail => exact ⟨lexes_failure, begins_text (c := 't') rfl (by decide)⟩

theorem lexes_stmtDocs {stmts : List Stmt} (h : Stmt.AllLegible stmts) :
    List.Forall₂ (fun doc tokens => doc.Lexes Anything tokens ∧ doc.Begins isFirst)
      (Stmt.docs stmts) (Stmt.tokensOfEach stmts) := by
  cases stmts with
  | nil => exact .nil
  | cons stmt rest => exact .cons (lexes_stmtDoc h.1) (lexes_stmtDocs h.2)

end

/-- A legible term has the same tokens at every width. -/
theorem lex_render {term : Term} (h : term.Legible) (width : Int) :
    lex (term.render width).toList = some term.tokens := by
  have hlex := (lexes_doc h).1 _ (allows_render width term.doc) [] [] ends_nil (by rw [lex])
  rw [List.append_nil, List.append_nil] at hlex
  exact hlex

end Script
end CaseScript
