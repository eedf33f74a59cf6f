import CaseScript.Proofs.Doc.FlatText
import CaseScript.Proofs.Name.Identifier
import CaseScript.Proofs.Pattern.Exactness
import CaseScript.Proofs.Script.Literal
import CaseScript.Proofs.Text.Reading
import CaseScript.Script.Format

/-!
# Texts that stand on one line

A newline in a document is a line or a break, never part of a text. Nothing that is written into a
script as it stands holds one: literals are escaped, and names and operators consist of other
characters.
-/

namespace CaseScript

/-! ## What is written into a script -/

theorem Text.newline_notMem_toString (n : Nat) : '\n' ∉ (toString n).toList := by
  intro h
  exact absurd (isDigit_of_mem_toString h) (by decide)

theorem Name.newline_notMem_identifier {name : Text} (h : isValid name = true) :
    '\n' ∉ (identifier name).toList := by
  have hshown : '\n' ∉ name.shown.toList := by
    intro hmem
    exact absurd (isPart_of_mem_shown h _ hmem) (by decide)
  rcases toList_identifier name with ⟨-, hlist⟩ | ⟨-, hlist⟩
  · rw [hlist]
    exact hshown
  · rw [hlist, List.mem_append, List.mem_singleton]
    rintro (hmem | hdollar)
    · exact hshown hmem
    · exact absurd hdollar (by decide)

theorem Text.newline_notMem_operator {op : Text} (h : op.isOperator = true) :
    '\n' ∉ op.shown.toList := by
  rw [shown, String.toList_ofList, List.mem_map]
  rintro ⟨p, hp, hshown⟩
  have hblank : p.isBlank = false := (isOperator_iff.mp h).2 p hp
  cases p with
  | scalar c =>
    rw [CodePoint.shown_scalar] at hshown
    subst hshown
    exact absurd hblank (by decide)
  | surrogate offset =>
    rw [CodePoint.shown] at hshown
    exact absurd hshown (by decide)

theorem Literal.newline_notMem_written (value : Literal) : '\n' ∉ value.written.toList := by
  cases value with
  | int n =>
    rw [Literal.written_int]
    split
    · exact Text.newline_notMem_toString _
    · rw [String.toList_append, List.mem_append]
      rintro (hsign | hdigits)
      · exact absurd hsign (by decide)
      · exact Text.newline_notMem_toString _ hdigits
  | string value => exact Script.newline_notMem_stringLiteral value
  | bool value => cases value <;> decide

/-! ## Documents -/

namespace Doc

/-- Does every text in a document stand on one line? -/
def unbroken : Doc → Bool
  | empty | line | brk _ _ => true
  | text s => (ofText? s).isSome
  | append first second => first.unbroken && second.unbroken
  | nest _ doc | nestIfBroken _ doc | group doc => doc.unbroken

@[simp] theorem unbroken_empty : empty.unbroken = true := rfl

@[simp] theorem unbroken_line : line.unbroken = true := rfl

@[simp] theorem unbroken_brk (flat broken : String) : (brk flat broken).unbroken = true := rfl

@[simp] theorem unbroken_text {s : String} : (text s).unbroken = true ↔ '\n' ∉ s.toList := by
  rw [unbroken, ← Option.isNone_eq_false_iff, ← Bool.not_eq_true, Option.isNone_iff_eq_none,
    ofText?_eq_none_iff]

@[simp] theorem unbroken_append {first second : Doc} :
    (append first second).unbroken = true ↔ first.unbroken = true ∧ second.unbroken = true := by
  rw [unbroken, Bool.and_eq_true]

@[simp] theorem unbroken_nest (indent : Int) (doc : Doc) :
    (nest indent doc).unbroken = doc.unbroken := rfl

@[simp] theorem unbroken_nestIfBroken (indent : Int) (doc : Doc) :
    (nestIfBroken indent doc).unbroken = doc.unbroken := rfl

@[simp] theorem unbroken_group (doc : Doc) : (group doc).unbroken = doc.unbroken := rfl

@[simp] theorem unbroken_softBreak : softBreak.unbroken = true := rfl

@[simp] theorem unbroken_space : space.unbroken = true := rfl

theorem unbroken_join {separator : Doc} {docs : List Doc} (hs : separator.unbroken = true)
    (h : ∀ doc ∈ docs, doc.unbroken = true) : (join separator docs).unbroken = true := by
  induction docs with
  | nil => rfl
  | cons doc rest ih =>
    rw [List.forall_mem_cons] at h
    cases rest with
    | nil => simp [join, h.1]
    | cons next rest =>
      simp only [join, List.intersperse_cons_cons, concat_cons, unbroken_append]
      exact ⟨h.1, hs, ih h.2⟩

end Doc

/-! ## Formats -/

namespace Script

open Doc

theorem unbroken_enclosed {opening closing : String} (hopening : '\n' ∉ opening.toList)
    (hclosing : '\n' ∉ closing.toList) {items : List Doc}
    (h : ∀ item ∈ items, item.unbroken = true) :
    (enclosed opening items closing).unbroken = true := by
  have hitems : (join comma items).unbroken = true := unbroken_join (by decide) h
  unfold enclosed
  split <;> simp [hopening, hclosing, hitems]

theorem unbroken_declaration {identifier : String} (h : '\n' ∉ identifier.toList) {value : Doc}
    (hvalue : value.unbroken = true) : (declaration identifier value).unbroken = true := by
  simp [declaration, h, hvalue]

theorem unbroken_giving {value : Doc} (h : value.unbroken = true) :
    (giving value).unbroken = true := by
  simp [giving, h]

theorem unbroken_indented {stmts : List Doc} (h : ∀ stmt ∈ stmts, stmt.unbroken = true) :
    (indented stmts).unbroken = true := by
  simp [indented, unbroken_join unbroken_line h]

theorem unbroken_immediate {stmts : List Doc} (h : ∀ stmt ∈ stmts, stmt.unbroken = true) :
    (immediate stmts).unbroken = true := by
  simp [immediate, unbroken_indented h]

theorem unbroken_conditional {tests body : List Doc}
    (htests : ∀ test ∈ tests, test.unbroken = true) (hbody : ∀ stmt ∈ body, stmt.unbroken = true) :
    (conditional tests body).unbroken = true := by
  have hcondition : (conjunction tests).unbroken = true := unbroken_join (by decide) htests
  simp [conditional, hcondition, unbroken_indented hbody]

theorem unbroken_failure : failure.unbroken = true := by decide +kernel

theorem unbroken_arrowDoc {params : List String} (h : ∀ param ∈ params, '\n' ∉ param.toList)
    {body : Doc} (hbody : body.unbroken = true) : (arrowDoc params body).unbroken = true := by
  have hparams : (enclosed "(" (params.map text) ")").unbroken = true := by
    refine unbroken_enclosed (by decide) (by decide) ?_
    rw [List.forall_mem_map]
    exact fun param hparam => unbroken_text.mpr (h param hparam)
  simp [arrowDoc, hparams, hbody]

theorem unbroken_parenthesized (needed : Bool) {doc : Doc} (h : doc.unbroken = true) :
    (parenthesized needed doc).unbroken = true := by
  unfold parenthesized
  split <;> simp [h]

/-! ## Parts of a subject -/

variable {subject : String}

theorem unbroken_item {list : Ref String} (h : (list.doc text).unbroken = true) (index : Nat) :
    ((Ref.item list index).doc text).unbroken = true := by
  rw [Ref.doc, append_eq, unbroken_append, unbroken_text]
  simp only [String.toList_append, List.mem_append, not_or]
  exact ⟨h, ⟨by decide, Text.newline_notMem_toString index⟩, by decide⟩

theorem unbroken_rest {list : Ref String} (h : (list.doc text).unbroken = true) (start : Nat) :
    ((Ref.rest list start).doc text).unbroken = true := by
  rw [Ref.doc, append_eq, unbroken_append, unbroken_text]
  simp only [String.toList_append, List.mem_append, not_or]
  exact ⟨h, ⟨by decide, Text.newline_notMem_toString start⟩, by decide⟩

theorem unbroken_ref (h : '\n' ∉ subject.toList) (ref : Ref Unit) :
    ((ref.map fun _ => subject).doc text).unbroken = true := by
  induction ref with
  | subject s => exact unbroken_text.mpr h
  | item list index ih => exact unbroken_item ih index
  | rest list start ih => exact unbroken_rest ih start

theorem unbroken_check (h : '\n' ∉ subject.toList) (check : Check Unit) :
    ((check.map fun _ => subject).doc text).unbroken = true := by
  cases check with
  | length ref count atLeast =>
    have hcount := Literal.newline_notMem_written (.int count)
    have href := unbroken_ref h ref
    rw [Literal.written] at hcount
    cases atLeast <;>
      simp only [Check.map, Check.doc, lengthTest, conjunctionMark, concat_cons, append_eq,
        unbroken_append, unbroken_text, unbroken_space, href, hcount] <;> decide
  | equals ref literal =>
    have hliteral := literal.newline_notMem_written
    simp [Check.map, Check.doc, equalityTest, unbroken_ref h ref, hliteral]

variable {shadowing : Bool} {trail : Trail} {p : Pattern} {lowering : Lowering String}

theorem unbroken_checks (h : '\n' ∉ subject.toList)
    (hlower : p.lower shadowing trail subject = .ok lowering) :
    ∀ check ∈ lowering.checks, (check.doc text).unbroken = true := by
  obtain ⟨shape, -, rfl⟩ := Pattern.exists_shape hlower
  intro check hcheck
  obtain ⟨form, -, rfl⟩ := List.mem_map.mp hcheck
  exact unbroken_check h form

/-- All names of a lowered pattern can be declared for places that are written on one line. -/
theorem unbroken_declarations (h : '\n' ∉ subject.toList)
    (hlower : p.lower shadowing trail subject = .ok lowering) :
    ∀ doc ∈ Stmt.docs (declarations lowering), doc.unbroken = true := by
  have hbindings : ∀ binding ∈ lowering.bindings, (declaration (Name.identifier binding.name)
      (binding.ref.doc text)).unbroken = true := by
    intro binding hbinding
    have hvalid : Name.isValid binding.name = true := isValid_of_mem_lower hlower hbinding
    refine unbroken_declaration (Name.newline_notMem_identifier hvalid) ?_
    obtain ⟨shape, -, rfl⟩ := Pattern.exists_shape hlower
    obtain ⟨form, -, rfl⟩ := List.mem_map.mp hbinding
    exact unbroken_ref h form.ref
  unfold declarations
  generalize lowering.bindings = bindings at hbindings
  induction bindings with
  | nil => exact List.forall_mem_nil _
  | cons binding rest ih =>
    rw [List.forall_mem_cons] at hbindings
    rw [List.map_cons, Stmt.docs, List.forall_mem_cons]
    exact ⟨hbindings.1, ih hbindings.2⟩

end Script

end CaseScript
