import CaseScript.Proofs.Script.Tokens

/-!
# Reading scripts

A recursive descent over the tokens of a script that gives back the term it was written for. Calls
are read from the left: behind a term, each list of arguments makes a new callee of what was read so
far. A function that is called stands in parentheses, and so does the function of a block, which is
told apart by its brace. The fuel bounds the depth; one more than the number of tokens is enough.
-/

namespace CaseScript
namespace Script

open Js Text

/-! ## Words -/

/-- The number that a word of digits writes. -/
def count (w : String) : Nat := number w.toList

/-- The literal that a word writes, if it is no name. -/
def wordLiteral? (w : String) : Option Literal :=
  if w.toList.head?.any Char.isDigit then some (.int (count w))
  else if w = "true" then some (.bool true)
  else if w = "false" then some (.bool false)
  else none

theorem count_toString (n : Nat) : count (toString n) = n := by
  have hread := number_toString n (ends_nil (p := Char.isDigit))
  rwa [List.append_nil] at hread

theorem wordLiteral?_toString (n : Nat) : wordLiteral? (toString n) = some (.int n) := by
  obtain ⟨c, s, hs⟩ := List.exists_cons_of_ne_nil (toString_ne_nil n)
  have hdigit : c.isDigit = true := isDigit_of_mem_toString (by rw [hs]; exact List.mem_cons_self)
  rw [wordLiteral?, if_pos (by simp only [hs, List.head?_cons, Option.any_some, hdigit]),
    count_toString]

/-- A name is no literal. -/
theorem wordLiteral?_identifier {identifier : String} (h : Name.Identifies identifier) :
    wordLiteral? identifier = none := by
  obtain ⟨name, hvalid, rfl⟩ := h
  have hreserved := Name.identifier_notMem_reserved name
  have hhead : (Name.identifier name).toList.head?.any Char.isDigit = false := by
    match name, hvalid with
    | .scalar c :: rest, hvalid =>
      simp only [Name.isValid, Name.isHead, Bool.and_eq_true, Bool.not_eq_true'] at hvalid
      rcases Name.toList_identifier (.scalar c :: rest) with ⟨-, hlist⟩ | ⟨-, hlist⟩
      · rw [hlist]
        simpa [Text.shown] using hvalid.1.2
      · rw [hlist]
        simpa [Text.shown] using hvalid.1.2
  have htrue : Name.identifier name ≠ "true" := by
    intro heq
    exact hreserved (by rw [heq]; decide)
  have hfalse : Name.identifier name ≠ "false" := by
    intro heq
    exact hreserved (by rw [heq]; decide)
  rw [wordLiteral?, hhead, if_neg (by decide), if_neg htrue, if_neg hfalse]

/-! ## The reader -/

/-- What follows the expected tokens. -/
def skip (expected tokens : List Token) : Option (List Token) := expected.isPrefixOf? tokens

theorem skip_nil (rest : List Token) : skip [] rest = some rest := rfl

theorem skip_cons (token : Token) (expected rest : List Token) :
    skip (token :: expected) (token :: rest) = skip expected rest := by
  simp [skip, List.isPrefixOf?]

theorem skip_cons_of_ne {token other : Token} (h : token ≠ other) (expected rest : List Token) :
    skip (token :: expected) (other :: rest) = none := by
  simp [skip, List.isPrefixOf?, h]

theorem skip_append (expected rest : List Token) :
    skip expected (expected ++ rest) = some rest := by
  induction expected with
  | nil => rfl
  | cons token expected ih => rw [List.cons_append, skip_cons, ih]

def readLiteral? : List Token → Option (Literal × List Token)
  | .string t :: rest => some (.string t, rest)
  | .word w :: rest => (wordLiteral? w).map fun value => (value, rest)
  | .mark c :: .word w :: rest => if c = '-' then some (.int (-count w), rest) else none
  | _ => none

/-- The steps of a reference, of which the first ones have been read. -/
def readSteps (place : Ref String) : List Token → Ref String × List Token
  | .mark '[' :: .word w :: .mark ']' :: rest => readSteps (.item place (count w)) rest
  | .mark '.' :: .word "slice" :: .mark '(' :: .word w :: .mark ')' :: rest =>
    readSteps (.rest place (count w)) rest
  | tokens => (place, tokens)

def readRef? : List Token → Option (Ref String × List Token)
  | .word w :: rest => if w = Name.subject then some (readSteps (.subject w) rest) else none
  | _ => none

def readCheck? (tokens : List Token) : Option (Check String × List Token) :=
  match skip [.word "Array", .mark '.', .word "isArray", .mark '('] tokens with
  | some rest => do
    let (place, rest) ← readRef? rest
    let rest ← skip (marks ")&&") rest
    let (_, rest) ← readRef? rest
    let rest ← skip [.mark '.', .word "length"] rest
    match skip (marks ">=") rest, skip (marks "===") rest with
    | some (.word w :: rest), _ => some (.length place (count w) true, rest)
    | _, some (.word w :: rest) => some (.length place (count w) false, rest)
    | _, _ => none
  | none => do
    let (place, rest) ← readRef? tokens
    let rest ← skip (marks "===") rest
    let (literal, rest) ← readLiteral? rest
    some (.equals place literal, rest)

def readChecks? : Nat → List Token → Option (List (Check String) × List Token)
  | 0, _ => none
  | n + 1, tokens => do
    let (check, rest) ← readCheck? tokens
    match skip (marks "&&") rest with
    | some rest =>
      let (checks, rest) ← readChecks? n rest
      some (check :: checks, rest)
    | none => some ([check], rest)

/-- Parameters up to the closing parenthesis. -/
def readParams? : List Token → Option (List String × List Token)
  | .mark ')' :: rest => some ([], rest)
  | .word w :: .mark ')' :: rest => some ([w], rest)
  | .word w :: .mark ',' :: rest => do
    let (params, rest) ← readParams? rest
    some (w :: params, rest)
  | _ => none

mutual

@[simp] def readTerm? : Nat → List Token → Option (Term × List Token)
  | 0, _ => none
  | n + 1, tokens =>
    match readLiteral? tokens, tokens with
    | some (value, rest), _ => readCalls? n (.literal value) rest
    | none, .word w :: rest =>
      if w = Name.subject then
        readCalls? n (.ref (readSteps (.subject w) rest).1) (readSteps (.subject w) rest).2
      else readCalls? n (.name w) rest
    | none, .mark '[' :: rest => do
      let (items, rest) ← readItems? n ']' rest
      readCalls? n (.array items) rest
    | none, .mark '(' :: rest =>
      match skip (marks "()=>\x7b") rest, rest with
      | some rest, _ => do
        let (stmts, rest) ← readStmts? n rest
        let rest ← skip (marks ")()") rest
        readCalls? n (.block stmts) rest
      | none, .mark '(' :: _ => do
        let (callee, rest) ← readTerm? n rest
        let rest ← skip (marks ")") rest
        readCalls? n callee rest
      | none, _ => do
        let (params, rest) ← readParams? rest
        let rest ← skip (marks "=>") rest
        let (body, rest) ← readTerm? n rest
        some (.arrow params body, rest)
    | none, _ => none

/-- The calls of a term that has been read. -/
@[simp] def readCalls? : Nat → Term → List Token → Option (Term × List Token)
  | 0, _, _ => none
  | n + 1, callee, .mark '(' :: rest => do
    let (args, rest) ← readItems? n ')' rest
    readCalls? n (.call callee args) rest
  | _ + 1, callee, tokens => some (callee, tokens)

/-- Items up to a closing bracket. -/
@[simp] def readItems? : Nat → Char → List Token → Option (List Term × List Token)
  | 0, _, _ => none
  | n + 1, close, tokens =>
    match skip [.mark close] tokens with
    | some rest => some ([], rest)
    | none => do
      let (item, rest) ← readTerm? n tokens
      match skip [.mark ','] rest with
      | some rest =>
        let (items, rest) ← readItems? n close rest
        some (item :: items, rest)
      | none =>
        let rest ← skip [.mark close] rest
        some ([item], rest)

@[simp] def readStmt? : Nat → List Token → Option (Stmt × List Token)
  | 0, _ => none
  | n + 1, .word "let" :: .word identifier :: .mark '=' :: rest => do
    let (value, rest) ← readTerm? n rest
    let rest ← skip [.mark ';'] rest
    some (.declare identifier value, rest)
  | n + 1, .word "return" :: rest => do
    let (value, rest) ← readTerm? n rest
    let rest ← skip [.mark ';'] rest
    some (.give value, rest)
  | n + 1, .word "if" :: .mark '(' :: rest => do
    let (checks, rest) ← readChecks? n rest
    let rest ← skip (marks ")\x7b") rest
    let (body, rest) ← readStmts? n rest
    some (.guarded checks body, rest)
  | _ + 1, tokens => (skip Stmt.fail.tokens tokens).map fun rest => (.fail, rest)

/-- Statements up to the closing brace. -/
@[simp] def readStmts? : Nat → List Token → Option (List Stmt × List Token)
  | 0, _ => none
  | n + 1, tokens =>
    match skip [.mark '\x7d'] tokens with
    | some rest => some ([], rest)
    | none => do
      let (stmt, rest) ← readStmt? n tokens
      let (stmts, rest) ← readStmts? n rest
      some (stmt :: stmts, rest)

end

/-- The term that a text was written for. -/
def readScript? (s : String) : Option Term := do
  let tokens ← lex s.toList
  match ← readTerm? (tokens.length + 1) tokens with
  | (term, []) => some term
  | _ => none

/-! ## Where a reader stops -/

/-- What comes next is no step of a reference. -/
def StopsSteps (rest : List Token) : Prop := ∀ place, readSteps place rest = (place, rest)

/-- What comes next continues neither a reference nor a call. -/
def Stops (rest : List Token) : Prop := StopsSteps rest ∧ rest.head? ≠ some (.mark '(')

theorem stopsSteps_mark {c : Char} (h : c ≠ '[' ∧ c ≠ '.') (rest : List Token) :
    StopsSteps (.mark c :: rest) := by
  intro place
  unfold readSteps
  split
  · rename_i heq
    cases heq
    exact absurd rfl h.1
  · rename_i heq
    cases heq
    exact absurd rfl h.2
  · rfl

/-- The length of what is referred to is no step. -/
theorem stopsSteps_length (rest : List Token) :
    StopsSteps (.mark '.' :: .word "length" :: rest) := by
  intro place
  unfold readSteps
  split
  · rename_i heq
    cases heq
  · rename_i heq
    simp at heq
  · rfl

theorem stops_mark {c : Char} (h : c ≠ '[' ∧ c ≠ '.' ∧ c ≠ '(') (rest : List Token) :
    Stops (.mark c :: rest) := ⟨stopsSteps_mark ⟨h.1, h.2.1⟩ rest, by simp [h.2.2]⟩

theorem stops_nil : Stops [] := ⟨fun _ => rfl, by simp⟩

theorem readSteps_steps (place : Ref String) (rest : List Token) :
    readSteps (.subject place.root) (place.steps ++ rest) = readSteps place rest := by
  induction place generalizing rest with
  | subject s => rfl
  | item list index ih =>
    rw [Ref.root, Ref.steps, List.append_assoc, ih]
    simp only [List.cons_append, List.nil_append]
    rw [readSteps, count_toString]
  | rest list start ih =>
    rw [Ref.root, Ref.steps, List.append_assoc, ih]
    simp only [List.cons_append, List.nil_append]
    rw [readSteps, count_toString]

theorem readRef?_tokens {place : Ref String} (h : place.root = Name.subject) {rest : List Token}
    (hrest : StopsSteps rest) : readRef? (place.tokens ++ rest) = some (place, rest) := by
  rw [Ref.tokens, List.cons_append, readRef?, if_pos h, readSteps_steps, hrest]

theorem readCalls?_of_stops {n : Nat} {term : Term} {rest : List Token} (h : Stops rest) :
    readCalls? (n + 1) term rest = some (term, rest) := by
  rw [readCalls?]
  rintro rest rfl
  exact h.2 rfl

/-! ## Literals, checks and parameters are read back -/

theorem readLiteral?_mark {c : Char} (hc : c ≠ '-') (rest : List Token) :
    readLiteral? (.mark c :: rest) = none := by
  unfold readLiteral?
  split
  · rename_i heq
    cases heq
  · rename_i heq
    cases heq
  · rename_i heq
    cases heq
    rw [if_neg hc]
  · rfl

theorem readLiteral?_tokens (value : Literal) (rest : List Token) :
    readLiteral? (value.tokens ++ rest) = some (value, rest) := by
  cases value with
  | int n =>
    rw [Literal.tokens]
    split
    · rename_i hn
      rw [List.singleton_append, readLiteral?, wordLiteral?_toString, Option.map_some,
        Int.toNat_of_nonneg hn]
    · have hneg : -((-n).toNat : Int) = n := by omega
      simp only [List.cons_append, List.nil_append]
      rw [readLiteral?, if_pos rfl, count_toString, hneg]
  | string t => rfl
  | bool b => cases b <;> rfl

theorem readCheck?_tokens {check : Check String} (h : check.Legible) (rest : List Token) :
    readCheck? (check.tokens ++ rest) = some (check, rest) := by
  cases check with
  | length ref number atLeast =>
    have hclose : ∀ more, readRef? (ref.tokens ++ (marks ")&&" ++ more)) =
        some (ref, marks ")&&" ++ more) :=
      fun more => readRef?_tokens h (stopsSteps_mark (by decide) _)
    have hlength : ∀ more, readRef? (ref.tokens ++ ([.mark '.', .word "length"] ++ more)) =
        some (ref, [.mark '.', .word "length"] ++ more) :=
      fun more => readRef?_tokens h (stopsSteps_length more)
    rw [Check.tokens, readCheck?]
    simp only [List.append_assoc]
    rw [skip_append]
    simp only [hclose, hlength, skip_append, Option.bind_eq_bind, Option.bind_some]
    have hsame : ∀ compare, skip (marks compare)
        (marks compare ++ ([.word (toString number)] ++ rest)) =
          some (.word (toString number) :: rest) := fun _ => skip_append ..
    cases atLeast with
    | false =>
      have hother : skip (marks ">=") (marks "===" ++ ([.word (toString number)] ++ rest)) = none :=
        rfl
      simp only [Bool.false_eq_true, if_false, hother, hsame, count_toString]
    | true => simp only [if_true, hsame, count_toString]
  | equals ref literal =>
    obtain ⟨hroot, -⟩ := h
    have hskip : skip [.word "Array", .mark '.', .word "isArray", .mark '(']
        (ref.tokens ++ (marks "===" ++ literal.tokens) ++ rest) = none := by
      rw [Ref.tokens, hroot]
      rfl
    have href : readRef? (ref.tokens ++ (marks "===" ++ literal.tokens) ++ rest) =
        some (ref, marks "===" ++ (literal.tokens ++ rest)) := by
      rw [List.append_assoc, List.append_assoc]
      exact readRef?_tokens hroot (stopsSteps_mark (by decide) _)
    rw [Check.tokens, readCheck?, hskip]
    simp only [href, skip_append, readLiteral?_tokens, Option.bind_eq_bind, Option.bind_some]

theorem readChecks?_tokens {checks : List (Check String)} (hne : checks ≠ [])
    (h : ∀ check ∈ checks, check.Legible) {n : Nat}
    (hn : ((marks "&&").intercalate (checks.map Check.tokens)).length < n) (rest : List Token) :
    readChecks? n ((marks "&&").intercalate (checks.map Check.tokens) ++ (marks ")\x7b" ++ rest)) =
      some (checks, marks ")\x7b" ++ rest) := by
  induction checks generalizing n with
  | nil => exact absurd rfl hne
  | cons check checks ih =>
    rw [List.forall_mem_cons] at h
    cases n with
    | zero => omega
    | succ n =>
      cases checks with
      | nil =>
        have hcheck := readCheck?_tokens h.1 (marks ")\x7b" ++ rest)
        have hlast : skip (marks "&&") (marks ")\x7b" ++ rest) = none := rfl
        rw [List.map_cons, List.map_nil, List.intercalate_singleton, readChecks?, hcheck]
        simp only [Option.bind_eq_bind, Option.bind_some, hlast]
      | cons next checks =>
        rw [List.map_cons, List.map_cons, List.intercalate_cons_cons, ← List.map_cons] at hn ⊢
        have hmark : (marks "&&").length = 2 := rfl
        simp only [List.length_append, hmark] at hn
        have hchecks := ih (by simp) h.2 (n := n) (by omega)
        have hcheck := readCheck?_tokens h.1 (marks "&&" ++
          ((marks "&&").intercalate ((next :: checks).map Check.tokens) ++ (marks ")\x7b" ++ rest)))
        rw [List.append_assoc, List.append_assoc, readChecks?, hcheck]
        simp only [Option.bind_eq_bind, Option.bind_some, skip_append, hchecks]

theorem readParams?_tokens (params : List String) (rest : List Token) :
    readParams? ([.mark ','].intercalate (params.map fun param => [.word param]) ++
      .mark ')' :: rest) = some (params, rest) := by
  induction params with
  | nil => rfl
  | cons param params ih =>
    cases params with
    | nil => rfl
    | cons next params =>
      rw [List.map_cons] at ih
      rw [List.map_cons, List.map_cons, List.intercalate_cons_cons]
      simp only [List.cons_append, List.nil_append]
      rw [readParams?, ih]
      rfl

/-! ## Terms are read back -/

/-- Can the token begin a term? -/
def opensTerm : Token → Bool
  | .mark c => c == '(' || c == '[' || c == '-'
  | _ => true

theorem tokens_cons {term : Term} (h : term.Legible) :
    ∃ token more, term.tokens = token :: more ∧ opensTerm token = true := by
  cases term with
  | literal value =>
    cases value with
    | int n =>
      rw [Term.tokens, Literal.tokens]
      split
      · exact ⟨_, _, rfl, rfl⟩
      · exact ⟨_, _, rfl, rfl⟩
    | string t => exact ⟨_, _, rfl, rfl⟩
    | bool b => exact ⟨_, _, rfl, rfl⟩
  | name identifier => exact ⟨_, _, rfl, rfl⟩
  | array items => exact ⟨_, _, rfl, rfl⟩
  | operation op left right => exact h.elim
  | arrow params body => exact ⟨_, _, rfl, rfl⟩
  | call function args =>
    rw [Term.tokens]
    split
    · exact ⟨_, _, rfl, rfl⟩
    · obtain ⟨token, more, htokens, hopens⟩ := tokens_cons h.1
      exact ⟨token, _, by rw [htokens, List.cons_append], hopens⟩
  | ref place => exact ⟨_, _, rfl, rfl⟩
  | block body => exact ⟨_, _, rfl, rfl⟩

/-- The tokens of a term are read as the term where no call and no step comes next. -/
def Reads (term : Term) : Prop :=
  ∀ n rest, term.tokens.length < n → Stops rest →
    readTerm? n (term.tokens ++ rest) = some (term, rest)

/-- Behind the tokens of a term its calls are read, with the fuel that its tokens have left. -/
def ReadsCalls (term : Term) : Prop :=
  ∀ n rest, term.tokens.length < n → StopsSteps rest →
    ∃ m, n ≤ m + term.tokens.length ∧
      readTerm? n (term.tokens ++ rest) = readCalls? m term rest

theorem ReadsCalls.reads {term : Term} (h : ReadsCalls term) : Reads term := by
  intro n rest hn hrest
  obtain ⟨m, hm, hread⟩ := h n rest hn hrest.1
  obtain ⟨k, rfl⟩ : ∃ k, m = k + 1 := ⟨m - 1, by omega⟩
  rw [hread, readCalls?_of_stops hrest]

/-- The items of a list are read up to its closing bracket. -/
def ReadsItems (terms : List Term) : Prop :=
  ∀ n close rest, ([.mark ','].intercalate (Term.tokensOfEach terms)).length + 2 ≤ n →
    isClosing close = true → readItems? n close
      ([.mark ','].intercalate (Term.tokensOfEach terms) ++ .mark close :: rest) =
        some (terms, rest)

def ReadsStmt (stmt : Stmt) : Prop :=
  ∀ n rest, stmt.tokens.length < n → readStmt? n (stmt.tokens ++ rest) = some (stmt, rest)

def ReadsStmts (stmts : List Stmt) : Prop :=
  ∀ n rest, (Stmt.tokensOfEach stmts).flatten.length + 2 ≤ n →
    readStmts? n ((Stmt.tokensOfEach stmts).flatten ++ .mark '\x7d' :: rest) = some (stmts, rest)

theorem readsCalls_literal (value : Literal) : ReadsCalls (.literal value) := by
  intro n rest hn _
  obtain ⟨m, rfl⟩ : ∃ m, n = m + 1 := ⟨n - 1, by omega⟩
  have hpos : 0 < value.tokens.length := by
    cases value with
    | int n =>
      rw [Literal.tokens]
      split <;> simp
    | string t => exact Nat.one_pos
    | bool b => exact Nat.one_pos
  refine ⟨m, by rw [Term.tokens]; omega, ?_⟩
  simp only [Term.tokens, readTerm?, readLiteral?_tokens]

theorem readsCalls_name {identifier : String} (h : Name.Identifies identifier) :
    ReadsCalls (.name identifier) := by
  intro n rest hn _
  obtain ⟨m, rfl⟩ : ∃ m, n = m + 1 := ⟨n - 1, by omega⟩
  have hliteral : readLiteral? (.word identifier :: rest) = none := by
    rw [readLiteral?, wordLiteral?_identifier h]
    rfl
  refine ⟨m, by simp [Term.tokens], ?_⟩
  simp only [Term.tokens, List.singleton_append, readTerm?, hliteral, if_neg h.ne_subject]

theorem readsCalls_ref {place : Ref String} (h : place.root = Name.subject) :
    ReadsCalls (.ref place) := by
  intro n rest hn hrest
  obtain ⟨m, rfl⟩ : ∃ m, n = m + 1 := ⟨n - 1, by omega⟩
  have hliteral : readLiteral? (.word place.root :: (place.steps ++ rest)) = none := by
    rw [h]
    rfl
  rw [Term.tokens, Ref.tokens] at hn ⊢
  refine ⟨m, by simp only [List.length_cons]; omega, ?_⟩
  simp only [List.cons_append, readTerm?, hliteral, if_pos h, readSteps_steps, hrest place]

theorem readsCalls_array {items : List Term} (h : ReadsItems items) :
    ReadsCalls (.array items) := by
  intro n rest hn _
  obtain ⟨m, rfl⟩ : ∃ m, n = m + 1 := ⟨n - 1, by omega⟩
  rw [Term.tokens, bracketed] at hn ⊢
  simp only [List.length_cons, List.length_append, List.length_nil] at hn
  refine ⟨m, by simp only [List.length_cons]; omega, ?_⟩
  have hitems := h m ']' rest (by omega) rfl
  have hliteral := readLiteral?_mark (c := '[') (by decide)
  simp only [List.cons_append, List.append_assoc, List.nil_append, readTerm?, hliteral, hitems,
    Option.bind_eq_bind, Option.bind_some]

theorem readsCalls_block {body : List Stmt} (h : ReadsStmts body) : ReadsCalls (.block body) := by
  intro n rest hn _
  obtain ⟨m, rfl⟩ : ∃ m, n = m + 1 := ⟨n - 1, by omega⟩
  have hopen : marks "(()=>\x7b" = .mark '(' :: marks "()=>\x7b" := rfl
  have hclose : marks "\x7d)()" = .mark '\x7d' :: marks ")()" := rfl
  rw [Term.tokens, hopen, hclose] at hn ⊢
  simp only [List.length_cons, List.length_append] at hn ⊢
  refine ⟨m, by omega, ?_⟩
  have hmarks : (marks "()=>\x7b").length = 5 := rfl
  have hbody := h m (marks ")()" ++ rest) (by omega)
  have hliteral := readLiteral?_mark (c := '(') (by decide)
  simp only [List.cons_append, List.append_assoc, readTerm?, hliteral, skip_append, hbody,
    Option.bind_eq_bind, Option.bind_some]

/-- A function is told from a block by what stands behind its arrow, which is no brace. -/
theorem skip_block_arrow (params : List String) {body : Term} (h : body.Legible)
    (rest : List Token) :
    skip (marks "()=>\x7b") ((Term.arrow params body).tokens ++ rest) = none := by
  have hopen : marks "()=>\x7b" =
      [.mark '(', .mark ')', .mark '=', .mark '>', .mark '\x7b'] := rfl
  rw [hopen, Term.tokens, bracketed, List.cons_append, List.cons_append, skip_cons]
  cases params with
  | nil =>
    obtain ⟨token, more, htokens, hopens⟩ := tokens_cons h
    have hbrace : Token.mark '\x7b' ≠ token := by
      rintro rfl
      cases hopens
    have harrow : marks "=>" = [.mark '=', .mark '>'] := rfl
    rw [htokens, harrow]
    simp only [List.map_nil, List.intercalate_nil, List.nil_append, List.cons_append, skip_cons,
      skip_cons_of_ne hbrace]
  | cons param params =>
    cases params with
    | nil => exact skip_cons_of_ne (by simp) _ _
    | cons next params =>
      rw [List.map_cons, List.map_cons, List.intercalate_cons_cons]
      exact skip_cons_of_ne (by simp) _ _

/-- A function stands where its parameters come right behind the first parenthesis. -/
theorem readTerm?_arrow {n : Nat} {tokens : List Token}
    (h : ∀ rest, tokens ≠ .mark '(' :: rest) :
    readTerm? (n + 1) (.mark '(' :: tokens) =
      (readParams? tokens).bind fun params => (skip (marks "=>") params.2).bind fun rest =>
        (readTerm? n rest).bind fun body => some (.arrow params.1 body.1, body.2) := by
  have hopen : marks "()=>\x7b" =
      [.mark '(', .mark ')', .mark '=', .mark '>', .mark '\x7b'] := rfl
  have hskip : skip (marks "()=>\x7b") tokens = none := by
    cases tokens with
    | nil => rfl
    | cons token rest =>
      rw [hopen]
      apply skip_cons_of_ne
      rintro rfl
      exact h rest rfl
  have hliteral := readLiteral?_mark (c := '(') (by decide)
  simp only [readTerm?, hliteral, hskip]
  rfl

/-- The tokens of a function are read up to where nothing continues its body. -/
theorem reads_arrow {params : List String} {body : Term} (h : Reads body) :
    Reads (.arrow params body) := by
  intro n rest hn hrest
  obtain ⟨m, rfl⟩ : ∃ m, n = m + 1 := ⟨n - 1, by omega⟩
  rw [Term.tokens, bracketed] at hn ⊢
  simp only [List.length_cons, List.length_append, List.length_nil] at hn
  have hbody := h m rest (by omega) hrest
  have hparams := readParams?_tokens params (marks "=>" ++ (body.tokens ++ rest))
  simp only [List.cons_append, List.append_assoc, List.nil_append]
  rw [readTerm?_arrow]
  · simp only [hparams, skip_append, hbody, Option.bind_some]
  · intro more heq
    cases params with
    | nil => cases heq
    | cons param params =>
      cases params with
      | nil => cases heq
      | cons next params =>
        rw [List.map_cons, List.map_cons, List.intercalate_cons_cons] at heq
        cases heq

/-- Arguments behind a callee are read as a call of it. -/
theorem readCalls?_call (callee : Term) {args : List Term} (h : ReadsItems args) {n : Nat}
    (hn : (bracketed '(' (Term.tokensOfEach args) ')').length < n) (rest : List Token) :
    ∃ m, n = m + 1 ∧ readCalls? n callee (bracketed '(' (Term.tokensOfEach args) ')' ++ rest) =
      readCalls? m (.call callee args) rest := by
  obtain ⟨m, rfl⟩ : ∃ m, n = m + 1 := ⟨n - 1, by omega⟩
  rw [bracketed] at hn ⊢
  simp only [List.length_cons, List.length_append, List.length_nil] at hn
  have hitems := h m ')' rest (by omega) rfl
  refine ⟨m, rfl, ?_⟩
  simp only [List.cons_append, List.append_assoc, List.nil_append, readCalls?, hitems,
    Option.bind_eq_bind, Option.bind_some]

theorem readsCalls_call {function : Term} {args : List Term} (hfunction : function.Legible)
    (hreads : Reads function)
    (hcalls : function.needsParens = false → ReadsCalls function) (hargs : ReadsItems args) :
    ReadsCalls (.call function args) := by
  intro n rest hn _
  rw [Term.tokens] at hn ⊢
  cases hparens : function.needsParens with
  | false =>
    simp only [hparens, Bool.false_eq_true, if_false, List.length_append] at hn ⊢
    obtain ⟨m, hm, hread⟩ := hcalls hparens n (bracketed '(' (Term.tokensOfEach args) ')' ++ rest)
      (by omega) (stopsSteps_mark (by decide) _)
    obtain ⟨k, rfl, hcall⟩ := readCalls?_call function hargs (n := m) (by omega) rest
    refine ⟨k, ?_, ?_⟩
    · have hpos : 0 < (bracketed '(' (Term.tokensOfEach args) ')').length := by simp [bracketed]
      omega
    · rw [List.append_assoc, hread, hcall]
  | true =>
    simp only [hparens, if_true, List.length_append, List.length_cons, List.length_nil] at hn ⊢
    obtain ⟨m, rfl⟩ : ∃ m, n = m + 1 := ⟨n - 1, by omega⟩
    obtain ⟨k, hk, hcall⟩ := readCalls?_call function hargs (n := m) (by omega) rest
    refine ⟨k, by omega, ?_⟩
    have hclose : marks ")" = [.mark ')'] := rfl
    have hread := hreads m (.mark ')' :: (bracketed '(' (Term.tokensOfEach args) ')' ++ rest))
      (by omega) (stops_mark (by decide) _)
    have hliteral := readLiteral?_mark (c := '(') (by decide)
    cases function with
    | arrow params body =>
      have hskip := skip_block_arrow params hfunction.2
        (.mark ')' :: (bracketed '(' (Term.tokensOfEach args) ')' ++ rest))
      obtain ⟨more, hmore⟩ : ∃ more, (Term.arrow params body).tokens = .mark '(' :: more := ⟨_, rfl⟩
      simp only [List.cons_append, List.append_assoc, List.nil_append]
      rw [hmore] at hread hskip ⊢
      simp only [List.cons_append] at hread hskip ⊢
      simp only [readTerm?, hliteral, hskip, hread, hclose, skip_cons, Option.bind_eq_bind,
        Option.bind_some, skip_nil, hcall]
    | operation op left right => exact hfunction.elim
    | _ => cases hparens

theorem readsItems_nil : ReadsItems [] := by
  intro n close rest hn _
  obtain ⟨m, rfl⟩ : ∃ m, n = m + 1 := ⟨n - 1, by omega⟩
  simp only [Term.tokensOfEach, List.intercalate_nil, List.nil_append, readItems?, skip_cons,
    skip_nil]

/-- A term is no closing bracket. -/
theorem skip_close_tokens {term : Term} (h : term.Legible) {close : Char}
    (hclose : isClosing close = true) (rest : List Token) :
    skip [.mark close] (term.tokens ++ rest) = none := by
  obtain ⟨token, more, htokens, hopens⟩ := tokens_cons h
  rw [htokens]
  apply skip_cons_of_ne
  rintro rfl
  rcases isClosing_iff.mp hclose with rfl | rfl <;> cases hopens

theorem readsItems_cons {item : Term} {items : List Term} (hitem : item.Legible)
    (hreads : Reads item) (hitems : ReadsItems items) : ReadsItems (item :: items) := by
  intro n close rest hn hclose
  obtain ⟨m, rfl⟩ : ∃ m, n = m + 1 := ⟨n - 1, by omega⟩
  have hmark : close ≠ '[' ∧ close ≠ '.' ∧ close ≠ '(' := by
    rcases isClosing_iff.mp hclose with rfl | rfl <;> decide
  have hcomma : Token.mark ',' ≠ .mark close := by
    rcases isClosing_iff.mp hclose with rfl | rfl <;> decide
  cases items with
  | nil =>
    simp only [Term.tokensOfEach, List.intercalate_singleton] at hn ⊢
    have hskip := skip_close_tokens hitem hclose (.mark close :: rest)
    have hread := hreads m (.mark close :: rest) (by omega) (stops_mark hmark _)
    simp only [readItems?, hskip, hread, skip_cons_of_ne hcomma, skip_cons, skip_nil,
      Option.bind_eq_bind, Option.bind_some]
  | cons next items =>
    rw [Term.tokensOfEach, Term.tokensOfEach, List.intercalate_cons_cons,
      ← Term.tokensOfEach] at hn ⊢
    simp only [List.length_append, List.length_singleton] at hn
    simp only [List.append_assoc, List.cons_append, List.nil_append]
    have hskip := skip_close_tokens hitem hclose (.mark ',' ::
      ([.mark ','].intercalate (Term.tokensOfEach (next :: items)) ++ .mark close :: rest))
    have hread := hreads m (.mark ',' ::
      ([.mark ','].intercalate (Term.tokensOfEach (next :: items)) ++ .mark close :: rest))
      (by omega) (stops_mark (by decide) _)
    have hmore := hitems m close rest (by omega) hclose
    simp only [readItems?, hskip, hread, hmore, skip_cons, skip_nil, Option.bind_eq_bind,
      Option.bind_some]

/-! ## Statements are read back -/

theorem readsStmt_declare {identifier : String} {value : Term} (h : Reads value) :
    ReadsStmt (.declare identifier value) := by
  intro n rest hn
  obtain ⟨m, rfl⟩ : ∃ m, n = m + 1 := ⟨n - 1, by omega⟩
  rw [Stmt.tokens] at hn ⊢
  simp only [List.length_append, List.length_cons, List.length_nil] at hn
  have hread := h m (.mark ';' :: rest) (by omega) (stops_mark (by decide) _)
  simp only [List.cons_append, List.append_assoc, List.nil_append, readStmt?, hread, skip_cons,
    skip_nil, Option.bind_eq_bind, Option.bind_some]

theorem readsStmt_give {value : Term} (h : Reads value) : ReadsStmt (.give value) := by
  intro n rest hn
  obtain ⟨m, rfl⟩ : ∃ m, n = m + 1 := ⟨n - 1, by omega⟩
  rw [Stmt.tokens] at hn ⊢
  simp only [List.length_append, List.length_cons, List.length_nil] at hn
  have hread := h m (.mark ';' :: rest) (by omega) (stops_mark (by decide) _)
  simp only [List.cons_append, List.append_assoc, List.nil_append, readStmt?, hread, skip_cons,
    skip_nil, Option.bind_eq_bind, Option.bind_some]

theorem readsStmt_guarded {checks : List (Check String)} {body : List Stmt} (hne : checks ≠ [])
    (hchecks : ∀ check ∈ checks, check.Legible) (hbody : ReadsStmts body) :
    ReadsStmt (.guarded checks body) := by
  intro n rest hn
  obtain ⟨m, rfl⟩ : ∃ m, n = m + 1 := ⟨n - 1, by omega⟩
  rw [Stmt.tokens] at hn ⊢
  simp only [List.length_append, List.length_cons, List.length_nil] at hn
  have htests := readChecks?_tokens hne hchecks (n := m) (by omega)
    ((Stmt.tokensOfEach body).flatten ++ .mark '\x7d' :: rest)
  have hread := hbody m rest (by omega)
  simp only [List.cons_append, List.append_assoc, List.nil_append, readStmt?, htests, hread,
    skip_append, Option.bind_eq_bind, Option.bind_some]

theorem readsStmt_fail : ReadsStmt .fail := by
  intro n rest hn
  obtain ⟨m, rfl⟩ : ∃ m, n = m + 1 := ⟨n - 1, by omega⟩
  have hread : readStmt? (m + 1) (Stmt.fail.tokens ++ rest) =
      (skip Stmt.fail.tokens (Stmt.fail.tokens ++ rest)).map fun rest => (.fail, rest) := by
    conv_lhs => rw [Stmt.tokens]
    simp only [List.cons_append, List.nil_append, readStmt?]
    rfl
  rw [hread, skip_append]
  rfl

theorem readsStmts_nil : ReadsStmts [] := by
  intro n rest hn
  obtain ⟨m, rfl⟩ : ∃ m, n = m + 1 := ⟨n - 1, by omega⟩
  simp only [Stmt.tokensOfEach, List.flatten_nil, List.nil_append, readStmts?, skip_cons, skip_nil]

theorem readsStmts_cons {stmt : Stmt} {stmts : List Stmt} (h : ReadsStmt stmt)
    (hstmts : ReadsStmts stmts) : ReadsStmts (stmt :: stmts) := by
  intro n rest hn
  obtain ⟨m, rfl⟩ : ∃ m, n = m + 1 := ⟨n - 1, by omega⟩
  obtain ⟨w, more, hword⟩ : ∃ w more, stmt.tokens = .word w :: more := by
    cases stmt <;> exact ⟨_, _, rfl⟩
  rw [Stmt.tokensOfEach, List.flatten_cons] at hn ⊢
  have hlength := congrArg List.length hword
  simp only [List.length_append, List.length_cons] at hn hlength
  have hskip : skip [.mark '\x7d'] (stmt.tokens ++
      ((Stmt.tokensOfEach stmts).flatten ++ .mark '\x7d' :: rest)) = none := by
    rw [hword]
    exact skip_cons_of_ne (by simp) _ _
  have hread := h m ((Stmt.tokensOfEach stmts).flatten ++ .mark '\x7d' :: rest) (by omega)
  have hmore := hstmts m rest (by omega)
  simp only [List.append_assoc, readStmts?, hskip, hread, hmore, Option.bind_eq_bind,
    Option.bind_some]

/-! ## Scripts are read back -/

mutual

/-- Legible terms are read back, and so are their calls where they need no parentheses. -/
theorem reads_term {term : Term} (h : term.Legible) :
    Reads term ∧ (term.needsParens = false → ReadsCalls term) := by
  have hall : ReadsCalls term → Reads term ∧ (term.needsParens = false → ReadsCalls term) :=
    fun hcalls => ⟨hcalls.reads, fun _ => hcalls⟩
  cases term with
  | literal value => exact hall (readsCalls_literal value)
  | name identifier => exact hall (readsCalls_name h)
  | array items => exact hall (readsCalls_array (reads_items h))
  | operation op left right => exact h.elim
  | arrow params body =>
    refine ⟨reads_arrow (reads_term h.2).1, ?_⟩
    intro hparens
    cases hparens
  | call function args =>
    obtain ⟨hreads, hcalls⟩ := reads_term h.1
    exact hall (readsCalls_call h.1 hreads hcalls (reads_items h.2))
  | ref place => exact hall (readsCalls_ref h)
  | block body => exact hall (readsCalls_block (reads_stmts h))

theorem reads_items {terms : List Term} (h : Term.AllLegible terms) : ReadsItems terms := by
  cases terms with
  | nil => exact readsItems_nil
  | cons term rest => exact readsItems_cons h.1 (reads_term h.1).1 (reads_items h.2)

theorem reads_stmt {stmt : Stmt} (h : stmt.Legible) : ReadsStmt stmt := by
  cases stmt with
  | declare identifier value => exact readsStmt_declare (reads_term h.2).1
  | give value => exact readsStmt_give (reads_term h).1
  | guarded checks body => exact readsStmt_guarded h.1 h.2.1 (reads_stmts h.2.2)
  | fail => exact readsStmt_fail

theorem reads_stmts {stmts : List Stmt} (h : Stmt.AllLegible stmts) : ReadsStmts stmts := by
  cases stmts with
  | nil => exact readsStmts_nil
  | cons stmt rest => exact readsStmts_cons (reads_stmt h.1) (reads_stmts h.2)

end

/-- A legible term is read back from its text at every width. -/
theorem readScript?_render {term : Term} (h : term.Legible) (width : Int) :
    readScript? (term.render width) = some term := by
  have hread := (reads_term h).1 (term.tokens.length + 1) [] (by omega) stops_nil
  rw [List.append_nil] at hread
  simp only [readScript?, lex_render h, hread, Option.bind_eq_bind, Option.bind_some]

end Script
end CaseScript
