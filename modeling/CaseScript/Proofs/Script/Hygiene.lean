import CaseScript.Proofs.Js.Renaming
import CaseScript.Proofs.Script.Declarations

/-!
# Hygiene of generated names

All matches of a script hold their subjects under one identifier. The script means the same as the
one in which every match has an identifier of its own for its subject, so each occurrence of the
shared identifier belongs to the match that it was written for. No other declaration bears this
identifier, nor the name of a global that scripts rely on. All this holds of scripts that JavaScript
reads as the programs they stand for: an operator such as `+$+`, which is written as it stands,
names the subject of a match wherever it is put.
-/

namespace CaseScript
namespace Script

open Js

section OwnScript

variable {subjects : Trail → String} {shadowing : Bool} {pairs more : List (String × String)}

/-- Both sides declare the same identifiers of names. -/
def Plain (pairs : List (String × String)) : Prop :=
  ∀ entry ∈ pairs, entry.1 = entry.2 ∧ Name.Identifies entry.1

/-- Beside identifiers of names, the shared identifier of subjects is paired with own ones. -/
def Agrees (subjects : Trail → String) (pairs : List (String × String)) : Prop :=
  ∀ entry ∈ pairs,
    (entry.1 = entry.2 ∧ Name.Identifies entry.1) ∨
      (entry.1 = Name.subject ∧ ∃ place, entry.2 = subjects place)

theorem Plain.append_agrees (hmore : Plain more) (h : Agrees subjects pairs) :
    Agrees subjects (more ++ pairs) := by
  intro entry hentry
  rcases List.mem_append.mp hentry with hentry | hentry
  · exact .inl (hmore entry hentry)
  · exact h entry hentry

theorem Agrees.cons_subject (h : Agrees subjects pairs) (place : Trail) :
    Agrees subjects ((Name.subject, subjects place) :: pairs) := by
  intro entry hentry
  rcases List.mem_cons.mp hentry with rfl | hentry
  · exact .inr ⟨rfl, place, rfl⟩
  · exact h entry hentry

theorem plain_zip_self {names : List String} (h : ∀ x ∈ names, Name.Identifies x) :
    Plain (names.zip names) := by
  intro entry hentry
  obtain ⟨hsame, hmem⟩ := mem_zip_self hentry
  exact ⟨hsame, h entry.1 hmem⟩

theorem Agrees.linked (h : Agrees subjects pairs) {x : String} (hs : x ≠ Name.subject)
    (ho : ∀ place, x ≠ subjects place) : Linked pairs x x := by
  induction pairs with
  | nil => exact rfl
  | cons entry rest ih =>
    obtain ⟨a, b⟩ := entry
    have hrest := ih fun entry hentry => h entry (List.mem_cons_of_mem _ hentry)
    rcases h (a, b) List.mem_cons_self with ⟨hab, -⟩ | ⟨ha, place, hb⟩
    · by_cases hx : x = a
      · exact .inl ⟨hx, hx.trans hab⟩
      · exact .inr ⟨hx, fun hxb => hx (hxb.trans hab.symm), hrest⟩
    · exact .inr ⟨fun hxa => hs (hxa.trans ha), fun hxb => ho place (hxb.trans hb), hrest⟩

theorem Agrees.linked_identifier (h : Agrees subjects pairs) (hown : OwnNames subjects)
    {name : Text} (hvalid : Name.isValid name = true) :
    Linked pairs (Name.identifier name) (Name.identifier name) :=
  h.linked (Name.identifier_ne_subject hvalid) fun place => (hown.ne_identifier place hvalid).symm

theorem Agrees.linked_global (h : Agrees subjects pairs) (hown : OwnNames subjects) {x : String}
    (hx : x ∈ globals) : Linked pairs x x := by
  refine h.linked ?_ fun place hxp => hown.notMem_globals place (hxp ▸ hx)
  rintro rfl
  simp [globals, Name.subject] at hx

/-- In the blocks of its clauses, the subject of a match is still the innermost one. -/
theorem Plain.linked_subject (hmore : Plain more) (hown : OwnNames subjects) (place : Trail) :
    Linked (more ++ (Name.subject, subjects place) :: pairs) Name.subject (subjects place) := by
  induction more with
  | nil => exact .inl ⟨rfl, rfl⟩
  | cons entry rest ih =>
    obtain ⟨a, b⟩ := entry
    have hidentifies : Name.Identifies a := (hmore (a, b) List.mem_cons_self).2
    obtain ⟨hab, name, hvalid, ha⟩ := hmore (a, b) List.mem_cons_self
    have hrest := ih fun entry hentry => hmore entry (List.mem_cons_of_mem _ hentry)
    refine .inr ⟨fun hsa => ?_, fun hsb => ?_, hrest⟩
    · exact hidentifies.ne_subject hsa.symm
    · exact hown.ne_identifier place hvalid (hsb.trans (hab.symm.trans ha))

theorem alike_ref {σ : Type} {x y : String} (h : Linked pairs x y) (ref : Ref σ) :
    Alike pairs (ref.code fun _ => .name x) (ref.code fun _ => .name y) := by
  induction ref with
  | subject s => exact .name h
  | item list index ih => exact .item ih index
  | rest list start ih =>
    exact .call (.member ih "slice") (.cons (.literal _ _) (.nil _))

theorem alike_condition {σ : Type} {x y : String} (h : Linked pairs x y)
    (hArray : Linked pairs "Array" "Array") (checks : List (Check σ)) :
    Alike pairs (Check.condition (fun _ => .name x) checks)
      (Check.condition (fun _ => .name y) checks) := by
  refine AlikeAll.conjunction ?_
  induction checks with
  | nil => exact .nil _
  | cons check rest ih =>
    refine AlikeAll.append ?_ ih
    cases check with
    | length ref count atLeast =>
      refine .cons (.call (.member (.name hArray) "isArray") (.cons (alike_ref h ref) (.nil _))) ?_
      exact .cons (.operation _ (.member (alike_ref h ref) "length") (.literal _ _)) (.nil _)
    | equals ref literal =>
      exact .cons (.operation _ (alike_ref h ref) (.literal _ _)) (.nil _)

theorem alike_clauseBody {x y : String} (h : Linked pairs x y) (shape : Lowering Unit)
    (hnames : ∀ binding ∈ shape.bindings,
      Linked pairs (Name.identifier binding.name) (Name.identifier binding.name))
    {bodyTerm ownTerm : Term} (hbody : Alike pairs bodyTerm.code ownTerm.code) :
    AlikeStatements pairs
      (Stmt.codes (declarations (shape.map fun _ => x) ++ [.give bodyTerm]))
      (Stmt.codes (declarations (shape.map fun _ => y) ++ [.give ownTerm])) := by
  unfold declarations Lowering.map
  induction hb : shape.bindings generalizing shape with
  | nil => exact .cons (.giveBack hbody) (.nil _)
  | cons binding rest ih =>
    have hrest := ih ⟨[], rest⟩ (fun other hother => hnames other (by
      rw [hb]
      exact List.mem_cons_of_mem _ hother)) rfl
    have hfirst := hnames binding (by rw [hb]; exact List.mem_cons_self)
    refine .cons (.letBe hfirst ?_) hrest
    change Alike pairs ((binding.ref.map fun _ => x).code .name)
      ((binding.ref.map fun _ => y).code .name)
    rw [Ref.code_map, Ref.code_map]
    exact alike_ref h binding.ref

theorem declared_shape (shape : Lowering Unit) (subject : String) (bodyTerm : Term) :
    declared (Stmt.codes (declarations (shape.map fun _ => subject) ++ [.give bodyTerm])) =
      shape.bindings.map fun binding => Name.identifier binding.name := by
  rw [declared_clauseBody, Lowering.map, List.map_map]
  rfl

/-- A clause can be lowered for every subject if it can be for one; only the subject differs. -/
theorem exists_shape_own {place : Trail} {subject : String} {p : Pattern}
    {lowering : Lowering String} (h : p.lower shadowing place subject = .ok lowering)
    (own : String) :
    ∃ shape : Lowering Unit, lowering = shape.map (fun _ => subject) ∧
      p.lower shadowing place own = .ok (shape.map fun _ => own) ∧
      ∀ binding ∈ shape.bindings, Name.isValid binding.name = true := by
  obtain ⟨shape, hshape, rfl⟩ := Pattern.exists_shape h
  refine ⟨shape, rfl, ?_, fun binding hb => isValid_of_mem_lower hshape hb⟩
  have hmap := p.lower_map (fun _ : Unit => own) shadowing place ()
  rw [hshape] at hmap
  exact hmap

theorem forall_mem_declared_shape {shape : Lowering Unit}
    (hvalid : ∀ binding ∈ shape.bindings, Name.isValid binding.name = true) :
    ∀ x ∈ shape.bindings.map fun binding => Name.identifier binding.name, Name.Identifies x := by
  intro x hx
  obtain ⟨binding, hb, rfl⟩ := List.mem_map.mp hx
  exact ⟨binding.name, hvalid binding hb, rfl⟩

mutual

/-- A tree with a script has one with own names too, and the two scripts are alike wherever they
stand. -/
theorem exists_alike (hown : OwnNames subjects) {trail : Trail} {e : Expr} {term : Term}
    (h : Yields oneSubject shadowing trail e term) :
    ∃ ownTerm, Yields subjects shadowing trail e ownTerm ∧
      ownTerm.needsParens = term.needsParens ∧
      ∀ pairs, Agrees subjects pairs → Alike pairs term.code ownTerm.code := by
  cases h with
  | literal _ value =>
    exact ⟨_, .literal trail value, rfl, fun pairs _ => .literal pairs value⟩
  | var _ valid =>
    exact ⟨_, .var trail valid, rfl,
      fun pairs hpairs => .name (hpairs.linked_identifier hown valid)⟩
  | list hitems =>
    obtain ⟨ownTerms, hyields, halike⟩ := exists_alike_items hown hitems
    exact ⟨_, .list hyields, rfl, fun pairs hpairs => .array (halike pairs hpairs)⟩
  | binop hleft valid hright =>
    obtain ⟨ownLeft, hownLeft, -, hleftAlike⟩ := exists_alike hown hleft
    obtain ⟨ownRight, hownRight, -, hrightAlike⟩ := exists_alike hown hright
    refine ⟨_, .binop hownLeft valid hownRight, rfl, fun pairs hpairs => ?_⟩
    refine (hleftAlike pairs hpairs).joined _ ?_ (identifies_of_mem_trailing hleft)
      (fun x => identifies_of_param? hleft) ⟨leading_code_eq hright hownRight, fun more hmore => ?_⟩
    · rw [param?_code hleft, param?_code hownLeft]
    · exact hrightAlike _ (Plain.append_agrees hmore hpairs)
  | letIn valid hvalue hbody =>
    rename_i name value body valueTerm bodyTerm
    obtain ⟨ownValue, hownValue, -, hvalueAlike⟩ := exists_alike hown hvalue
    obtain ⟨ownBody, hownBody, -, hbodyAlike⟩ := exists_alike hown hbody
    refine ⟨_, .letIn valid hownValue hownBody, rfl, fun pairs hpairs => ?_⟩
    have hlater : ownValue.code.later = valueTerm.code.later := by
      rw [later_code hvalue, later_code hownValue]
    have hnames :
        ∀ x ∈ Name.identifier name :: (valueTerm.code.later ++ []), Name.Identifies x := by
      rw [List.append_nil, List.forall_mem_cons]
      exact ⟨⟨name, valid, rfl⟩, identifies_of_mem_later hvalue⟩
    have hinside := (plain_zip_self hnames).append_agrees hpairs
    refine .call (.parens (.function (.intro ?_ ?_))) (.nil _)
    · simp [Stmt.codes, Stmt.code, declared, hlater]
    · simp only [Stmt.codes, Stmt.code, declared, hlater]
      refine .cons (.letBe ?_ (hvalueAlike _ hinside))
        (.cons (.giveBack (hbodyAlike _ hinside)) (.nil _))
      exact hinside.linked_identifier hown valid
  | apply hfunction hargs =>
    obtain ⟨ownFunction, hownFunction, hparens, hfunctionAlike⟩ := exists_alike hown hfunction
    obtain ⟨ownArgs, hownArgs, hargsAlike⟩ := exists_alike_items hown hargs
    refine ⟨_, .apply hownFunction hownArgs, rfl, fun pairs hpairs => ?_⟩
    refine .call ?_ (hargsAlike pairs hpairs)
    rw [hparens]
    split
    · exact .parens (hfunctionAlike pairs hpairs)
    · exact hfunctionAlike pairs hpairs
  | lambda valid distinct hbody =>
    obtain ⟨ownBody, hownBody, -, hbodyAlike⟩ := exists_alike hown hbody
    refine ⟨_, .lambda valid distinct hownBody, rfl, fun pairs hpairs => ?_⟩
    have hbodyInside : AlikeInside Name.Identifies pairs _ _ :=
      ⟨leading_code_eq hbody hownBody,
        fun more hmore => hbodyAlike _ (Plain.append_agrees hmore hpairs)⟩
    refine hbodyInside.overFirst fun inside =>
      .arrow _ (inside.alike _ (plain_zip_self fun x hx => ?_))
    obtain ⟨param, hparam, rfl⟩ := List.mem_map.mp hx
    exact ⟨param, valid param hparam, rfl⟩
  | cases hsubject hclauses =>
    obtain ⟨ownSubject, hownSubject, -, hsubjectAlike⟩ := exists_alike hown hsubject
    obtain ⟨ownStmts, hownStmts, hdeclared, hnames, hstmtsAlike⟩ :=
      exists_alike_clauses hown hclauses
    refine ⟨_, .cases hownSubject hownStmts, rfl, fun pairs hpairs => ?_⟩
    rename_i subject clauses subjectTerm stmts
    have hlater : ownSubject.code.later = subjectTerm.code.later := by
      rw [later_code hsubject, later_code hownSubject]
    have hall : ∀ x ∈ subjectTerm.code.later ++ declared (Stmt.codes stmts), Name.Identifies x :=
      List.forall_mem_append.mpr ⟨identifies_of_mem_later hsubject, hnames⟩
    have hrest := Plain.append_agrees (plain_zip_self hall) hpairs
    refine .call (.parens (.function (.intro ?_ ?_))) (.nil _)
    · simp [Stmt.codes, Stmt.code, declared, hdeclared, hlater]
    · simp only [Stmt.codes, Stmt.code, declared, hdeclared, hlater, List.zip_cons_cons,
        List.cons_append]
      refine .cons (.letBe (.inl ⟨rfl, rfl⟩) (hsubjectAlike _ (hrest.cons_subject trail))) ?_
      exact hstmtsAlike [] _ (by simp [Plain]) hrest

theorem exists_alike_items (hown : OwnNames subjects) {trail : Trail} {index : Nat}
    {items : List Expr} {terms : List Term}
    (h : YieldsItems oneSubject shadowing trail index items terms) :
    ∃ ownTerms, YieldsItems subjects shadowing trail index items ownTerms ∧
      ∀ pairs, Agrees subjects pairs → AlikeAll pairs (Term.codes terms) (Term.codes ownTerms) := by
  cases h with
  | nil => exact ⟨_, .nil trail index, fun pairs _ => .nil pairs⟩
  | cons hitem hrest =>
    obtain ⟨ownTerm, hownTerm, -, hitemAlike⟩ := exists_alike hown hitem
    obtain ⟨ownRest, hownRest, hrestAlike⟩ := exists_alike_items hown hrest
    exact ⟨_, .cons hownTerm hownRest,
      fun pairs hpairs => .cons (hitemAlike pairs hpairs) (hrestAlike pairs hpairs)⟩

theorem exists_alike_clauses (hown : OwnNames subjects) {trail : Trail} {index : Nat}
    {clauses : List Clause} {stmts : List Stmt}
    (h : YieldsClauses oneSubject shadowing trail index clauses stmts) :
    ∃ ownStmts, YieldsClauses subjects shadowing trail index clauses ownStmts ∧
      declared (Stmt.codes ownStmts) = declared (Stmt.codes stmts) ∧
      (∀ x ∈ declared (Stmt.codes stmts), Name.Identifies x) ∧
      ∀ more pairs, Plain more → Agrees subjects pairs →
        AlikeStatements (more ++ (Name.subject, subjects trail) :: pairs) (Stmt.codes stmts)
          (Stmt.codes ownStmts) := by
  cases h with
  | failing =>
    refine ⟨_, .failing trail index, rfl, by simp [Stmt.codes, Stmt.code, declared],
      fun more pairs hmore hpairs => ?_⟩
    have hagrees := hmore.append_agrees (hpairs.cons_subject trail)
    have hError : Linked (more ++ (Name.subject, subjects trail) :: pairs) "Error" "Error" :=
      hagrees.linked_global hown (by simp [globals])
    exact .cons (.throw (.construct (.name hError) (.cons (.literal _ _) (.nil _)))) (.nil _)
  | catchAll rest lowered total hbody =>
    obtain ⟨ownBody, hownBody, -, hbodyAlike⟩ := exists_alike hown hbody
    obtain ⟨shape, rfl, hlower, hvalid⟩ := exists_shape_own lowered (subjects trail)
    have htotal := (isCatchAll_lower hlower).trans ((isCatchAll_lower lowered).symm.trans total)
    refine ⟨_, .catchAll rest hlower htotal hownBody, ?_, ?_, fun more pairs hmore hpairs => ?_⟩
    · rw [declared_shape, declared_shape]
    · rw [declared_shape]
      exact forall_mem_declared_shape hvalid
    · have hagrees := hmore.append_agrees (hpairs.cons_subject trail)
      exact alike_clauseBody (hmore.linked_subject hown trail) shape
        (fun binding hb => hagrees.linked_identifier hown (hvalid binding hb))
        (hbodyAlike _ hagrees)
  | guarded lowered partial_checks hbody hrest =>
    obtain ⟨ownBody, hownBody, -, hbodyAlike⟩ := exists_alike hown hbody
    obtain ⟨ownRest, hownRest, hdeclared, hnames, hrestAlike⟩ := exists_alike_clauses hown hrest
    obtain ⟨shape, rfl, hlower, hvalid⟩ := exists_shape_own lowered (subjects trail)
    have hpartial := (isCatchAll_lower hlower).trans
      ((isCatchAll_lower lowered).symm.trans partial_checks)
    refine ⟨_, .guarded hlower hpartial hownBody hownRest, hdeclared, hnames,
      fun more pairs hmore hpairs =>
        .cons (.ifThen ?_ (.intro ?_ ?_)) (hrestAlike more pairs hmore hpairs)⟩
    · have hagrees := hmore.append_agrees (hpairs.cons_subject trail)
      rw [Lowering.map, Lowering.map, Check.condition_map, Check.condition_map]
      exact alike_condition (hmore.linked_subject hown trail)
        (hagrees.linked_global hown (by simp [globals])) shape.checks
    · rw [declared_shape, declared_shape]
    · rw [declared_shape, declared_shape, ← List.append_assoc]
      have hplain : Plain (((shape.bindings.map fun binding => Name.identifier binding.name).zip
          (shape.bindings.map fun binding => Name.identifier binding.name)) ++ more) := by
        intro entry hentry
        rcases List.mem_append.mp hentry with hentry | hentry
        · exact plain_zip_self (forall_mem_declared_shape hvalid) entry hentry
        · exact hmore entry hentry
      have hagrees := hplain.append_agrees (hpairs.cons_subject trail)
      exact alike_clauseBody (hplain.linked_subject hown trail) shape
        (fun binding hb => hagrees.linked_identifier hown (hvalid binding hb))
        (hbodyAlike _ hagrees)

end

theorem agrees_nil : Agrees subjects [] := fun _ hentry => absurd hentry List.not_mem_nil

end OwnScript

/-! ## Free identifiers -/

section Free

variable {shadowing : Bool}

/-- In the block of a match, the subject may be free beside globals and names. -/
def Mentions (x : String) : Prop := x = Name.subject ∨ x ∈ globals ∨ Name.Identifies x

theorem mentions_clauseBody {place : Trail} {p : Pattern} {lowering : Lowering String}
    (h : p.lower shadowing place Name.subject = .ok lowering) {bodyTerm : Term}
    (hbody : ∀ x ∈ bodyTerm.code.free, x ∈ globals ∨ Name.Identifies x) :
    ∀ x ∈ Statement.freeAll (Stmt.codes (declarations lowering ++ [.give bodyTerm])),
      Mentions x := by
  rw [freeAll_clauseBody h, List.forall_mem_append]
  refine ⟨fun x hx => ?_, fun x hx => .inr (hbody x hx)⟩
  obtain ⟨_, -, rfl⟩ := List.mem_map.mp hx
  exact .inl rfl

mutual

/-- What is free in a script is a global of scripts or a name of the tree, whatever the
operators. -/
theorem global_or_identifies {trail : Trail} {e : Expr} {term : Term}
    (h : Yields oneSubject shadowing trail e term) :
    ∀ x ∈ term.code.free, x ∈ globals ∨ Name.Identifies x := by
  cases h with
  | literal trail value => simp [Term.code, Expression.free]
  | var trail valid =>
    intro x hx
    rw [List.mem_singleton.mp hx]
    exact .inr ⟨_, valid, rfl⟩
  | list hitems => exact global_or_identifies_items hitems
  | binop hleft valid hright =>
    intro x hx
    rcases mem_free_joined hx with hx | hx
    · exact global_or_identifies hleft x hx
    · exact global_or_identifies hright x hx
  | letIn valid hvalue hbody =>
    intro x hx
    rw [free_block, List.mem_filter, List.mem_append] at hx
    rcases hx.1 with hx | hx
    · exact global_or_identifies hvalue x hx
    · refine global_or_identifies hbody x ?_
      simpa [Stmt.codes, Stmt.code, Statement.freeAll, Statement.free] using hx
  | apply hfunction hargs =>
    rw [Term.code, Expression.free, free_callee, List.forall_mem_append]
    exact ⟨global_or_identifies hfunction, global_or_identifies_items hargs⟩
  | lambda valid distinct hbody =>
    intro x hx
    have hbodyFree := mem_free_overFirst [] (fun e he => .inr (List.mem_filter.mp he).1) hx
    exact global_or_identifies hbody x (hbodyFree.resolve_left List.not_mem_nil)
  | cases hsubject hclauses =>
    intro x hx
    rw [free_block, List.mem_filter, List.mem_append] at hx
    obtain ⟨hx, hfree⟩ := hx
    rcases hx with hx | hx
    · exact global_or_identifies hsubject x hx
    · refine (mentions_clauses hclauses x hx).resolve_left ?_
      rintro rfl
      simp at hfree

theorem global_or_identifies_items {trail : Trail} {index : Nat} {items : List Expr}
    {terms : List Term} (h : YieldsItems oneSubject shadowing trail index items terms) :
    ∀ x ∈ Expression.freeAll (Term.codes terms), x ∈ globals ∨ Name.Identifies x := by
  cases h with
  | nil trail index => simp [Term.codes, Expression.freeAll]
  | cons hitem hrest =>
    rw [Term.codes, Expression.freeAll, List.forall_mem_append]
    exact ⟨global_or_identifies hitem, global_or_identifies_items hrest⟩

theorem mentions_clauses {trail : Trail} {index : Nat} {clauses : List Clause} {stmts : List Stmt}
    (h : YieldsClauses oneSubject shadowing trail index clauses stmts) :
    ∀ x ∈ Statement.freeAll (Stmt.codes stmts), Mentions x := by
  cases h with
  | failing trail index =>
    intro x hx
    have herror : x = "Error" := by
      simpa [Stmt.codes, Stmt.code, Statement.freeAll, Statement.free, Expression.free,
        Expression.freeAll] using hx
    rw [herror]
    exact .inr (.inl (by decide))
  | catchAll rest lowered total hbody =>
    exact mentions_clauseBody lowered (global_or_identifies hbody)
  | guarded lowered partial_checks hbody hrest =>
    rw [Stmt.codes, Stmt.code, Statement.freeAll, Statement.free, List.forall_mem_append,
      List.forall_mem_append]
    refine ⟨⟨fun x hx => ?_, fun x hx => ?_⟩, mentions_clauses hrest⟩
    · rcases free_condition_lower lowered x hx with rfl | rfl
      · exact .inr (.inl (by decide))
      · exact .inl rfl
    · exact mentions_clauseBody lowered (global_or_identifies hbody) x (List.mem_filter.mp hx).1

end

theorem subject_notMem_free {trail : Trail} {e : Expr} {term : Term}
    (h : Yields oneSubject shadowing trail e term) : Name.subject ∉ term.code.free := by
  intro hmem
  rcases global_or_identifies h _ hmem with hglobal | hidentifies
  · revert hglobal
    decide +kernel
  · exact hidentifies.ne_subject rfl

end Free

/-- The shared identifier of subjects is hygienic where all operators fit their operands. It is
never free. For any choice of identifiers of their own for all matches, each of them declared once,
the tree yields a script that differs only in what it calls the subjects: every condition and every
declaration of a clause refers to the subject of its own match there, and therefore here too. No
identifier that is declared for a name of the tree, also behind a comma or before an arrow mark, is
the one of subjects or a global of scripts, and these globals are not declared at all. -/
theorem names_hygienic {settings : Settings} {e : Expr} {term : Term}
    (h : (e.emission settings).result = .ok term) (hops : ∀ s ∈ e.subexprs, s.OperatorFits) :
    term.IsRead ∧
    Name.subject ∉ term.code.free ∧
    (∀ subjects : Trail → String, OwnNames subjects → ∃ own,
      Yields subjects settings.allowShadowing (.root "expr") e own ∧
      own.IsRead ∧
      Alike [] term.code own.code ∧
      (∀ place, own.code.binders.count (subjects place) ≤ 1) ∧
      ∀ x ∈ own.code.binders, (∃ place, x = subjects place) ∨
        Name.Identifies x ∧ x ∉ Name.subject :: globals) ∧
    ∀ x ∈ globals, x ∉ term.code.binders := by
  have hyields : Yields oneSubject settings.allowShadowing (.root "expr") e term := yields_iff.mpr h
  refine ⟨isRead_of_yields hyields hops, subject_notMem_free hyields, fun subjects hown => ?_,
    fun x hx hbinder => ?_⟩
  · obtain ⟨own, hownYields, -, halike⟩ := exists_alike hown hyields
    refine ⟨own, hownYields, isRead_of_yields hownYields hops, halike [] agrees_nil,
      count_of_yields hown hownYields, fun x hx => ?_⟩
    rcases declarable_of_yields hownYields x hx with ⟨place, -, heq⟩ | ⟨name, hvalid, rfl⟩
    · exact .inl ⟨place, heq⟩
    · refine .inr ⟨⟨name, hvalid, rfl⟩, ?_⟩
      rw [List.mem_cons, not_or]
      exact ⟨Name.identifier_ne_subject hvalid, identifier_notMem_globals name⟩
  · rcases declarable_of_yields hyields x hbinder with ⟨place, -, rfl⟩ | ⟨name, hvalid, rfl⟩
    · have hsubject : Name.subject ∉ globals := by decide +kernel
      exact hsubject hx
    · exact identifier_notMem_globals name hx

/-- An identifier for the subject of the match at a place. -/
def ownName (place : Trail) : String := String.ofList ('$' :: place.signature)

theorem ownNames_ownName : OwnNames ownName where
  injective h := Trail.signature_injective (List.cons.inj (String.ofList_injective h)).2
  ne_identifier place name hvalid heq := by
    have hlist : '$' :: place.signature = (Name.identifier name).toList := by
      rw [← heq, ownName, String.toList_ofList]
    rcases Name.toList_identifier name with ⟨-, hname⟩ | ⟨-, hname⟩
    · rw [hname] at hlist
      exact Name.dollar_notMem_shown hvalid (hlist ▸ List.mem_cons_self)
    · rw [hname] at hlist
      cases hshown : name.shown.toList with
      | nil => exact Name.shown_ne_empty hvalid hshown
      | cons c rest =>
        rw [hshown, List.cons_append] at hlist
        have hdollar := Name.dollar_notMem_shown hvalid
        rw [hshown, ← (List.cons.inj hlist).1] at hdollar
        exact hdollar List.mem_cons_self
  notMem_globals place hmem := by
    have hheads : ∀ word ∈ globals, word.toList.head? ≠ some '$' := by decide +kernel
    exact hheads _ hmem (by rw [ownName, String.toList_ofList]; rfl)

/-- `let a = (1 , b) in (p => a . b)` -/
def commaAndArrow : Expr :=
  let name := fun s => Expr.var (Text.ofString s)
  .letIn (Text.ofString "a")
    (.binop (Text.ofString ",") (.literal (.int 1)) (name "b"))
    (.binop (Text.ofString "=>") (name "p") (.binop (Text.ofString ".") (name "a") (name "b")))

/-- A match whose subject and whose last body are matches. -/
def nestedMatches : Expr :=
  .cases
    (.cases (.var (Text.ofString "xs"))
      [⟨.list [.var (Text.ofString "y")], .var (Text.ofString "y")⟩])
    [⟨.literal (.int 0), commaAndArrow⟩,
      ⟨.var (Text.ofString "z"),
        .cases (.var (Text.ofString "z")) [⟨.literal (.int 1), .literal (.bool false)⟩]⟩]

theorem names_hygienic_nested :
    ∃ term own, (nestedMatches.emission {}).result = .ok term ∧
      (∀ s ∈ nestedMatches.subexprs, s.OperatorFits) ∧ OwnNames ownName ∧
      term.code.binders = ["$", "$", "y", "a", "b", "p", "z", "$"] ∧
      term.code.operators = ["&&", "===", "===", ",", ".", "==="] ∧ term.IsRead ∧
      Name.subject ∉ term.code.free ∧
      Yields ownName false (.root "expr") nestedMatches own ∧ Alike [] term.code own.code := by
  obtain ⟨term, hterm⟩ : ∃ term, (nestedMatches.emission {}).result = .ok term := ⟨_, rfl⟩
  have hops : ∀ s ∈ nestedMatches.subexprs, s.OperatorFits := by
    have hcomma : "," ∈ Js.operators := by decide
    have hdot : "." ∈ Js.operators := by decide
    simp [nestedMatches, commaAndArrow, Expr.subexprs, Expr.clauseSubexprs, Expr.OperatorFits,
      Pattern.catchesAll, hcomma, hdot]
  obtain ⟨hread, hfree, halike, -⟩ := names_hygienic hterm hops
  obtain ⟨own, hown, -, hsame, -, -⟩ := halike ownName ownNames_ownName
  refine ⟨term, own, hterm, hops, ownNames_ownName, ?_, ?_, hread, hfree, hown, hsame⟩
  · cases hterm
    decide +kernel
  · cases hterm
    decide +kernel

end Script
end CaseScript
