import CaseScript.Proofs.Js.Operands

/-!
# Renaming declared identifiers

Two programs are alike if they differ only in the identifiers that their blocks declare: wherever
one of them refers to an identifier, both refer to corresponding declarations, or to the same
identifier that neither declares. The declarations around a place are kept as pairs, the innermost
ones first.
-/

namespace CaseScript
namespace Js

/-- Do two identifiers refer to the same of these pairs of declarations, or to none of them while
being the same? -/
def Linked : List (String × String) → String → String → Prop
  | [], x, y => x = y
  | (a, b) :: rest, x, y => (x = a ∧ y = b) ∨ (x ≠ a ∧ y ≠ b ∧ Linked rest x y)

mutual

inductive Alike : List (String × String) → Expression → Expression → Prop
  | literal (pairs : List (String × String)) (value : Literal) :
    Alike pairs (.literal value) (.literal value)
  | name {pairs : List (String × String)} {x y : String} (linked : Linked pairs x y) :
    Alike pairs (.name x) (.name y)
  | word (pairs : List (String × String)) (identifier : String) :
    Alike pairs (.word identifier) (.word identifier)
  | array {pairs : List (String × String)} {items items' : List Expression}
    (items_alike : AlikeAll pairs items items') : Alike pairs (.array items) (.array items')
  | operation {pairs : List (String × String)} (op : String) {left right left' right' : Expression}
    (left_alike : Alike pairs left left') (right_alike : Alike pairs right right') :
    Alike pairs (.operation op left right) (.operation op left' right')
  | arrow {pairs : List (String × String)} (params : List String) {body body' : Expression}
    (body_alike : Alike (params.zip params ++ pairs) body body') :
    Alike pairs (.arrow params body) (.arrow params body')
  | bareArrow {pairs : List (String × String)} (param : String) {body body' : Expression}
    (body_alike : Alike ((param, param) :: pairs) body body') :
    Alike pairs (.bareArrow param body) (.bareArrow param body')
  | function {pairs : List (String × String)} {body body' : List Statement}
    (body_alike : AlikeBlock pairs body body') : Alike pairs (.function body) (.function body')
  | call {pairs : List (String × String)} {callee callee' : Expression}
    {args args' : List Expression} (callee_alike : Alike pairs callee callee')
    (args_alike : AlikeAll pairs args args') :
    Alike pairs (.call callee args) (.call callee' args')
  | member {pairs : List (String × String)} {object object' : Expression}
    (object_alike : Alike pairs object object') (property : String) :
    Alike pairs (.member object property) (.member object' property)
  | item {pairs : List (String × String)} {object object' : Expression}
    (object_alike : Alike pairs object object') (index : Nat) :
    Alike pairs (.item object index) (.item object' index)
  | construct {pairs : List (String × String)} {callee callee' : Expression}
    {args args' : List Expression} (callee_alike : Alike pairs callee callee')
    (args_alike : AlikeAll pairs args args') :
    Alike pairs (.construct callee args) (.construct callee' args')
  | parens {pairs : List (String × String)} {inner inner' : Expression}
    (inner_alike : Alike pairs inner inner') : Alike pairs (.parens inner) (.parens inner')

inductive AlikeAll : List (String × String) → List Expression → List Expression → Prop
  | nil (pairs : List (String × String)) : AlikeAll pairs [] []
  | cons {pairs : List (String × String)} {e e' : Expression} {rest rest' : List Expression}
    (head_alike : Alike pairs e e') (rest_alike : AlikeAll pairs rest rest') :
    AlikeAll pairs (e :: rest) (e' :: rest')

inductive AlikeStatement : List (String × String) → Statement → Statement → Prop
  | letBe {pairs : List (String × String)} {x y : String} {value value' : Expression}
    (linked : Linked pairs x y) (value_alike : Alike pairs value value') :
    AlikeStatement pairs (.letBe x value) (.letBe y value')
  | giveBack {pairs : List (String × String)} {value value' : Expression}
    (value_alike : Alike pairs value value') :
    AlikeStatement pairs (.giveBack value) (.giveBack value')
  | ifThen {pairs : List (String × String)} {condition condition' : Expression}
    {body body' : List Statement} (condition_alike : Alike pairs condition condition')
    (body_alike : AlikeBlock pairs body body') :
    AlikeStatement pairs (.ifThen condition body) (.ifThen condition' body')
  | throw {pairs : List (String × String)} {error error' : Expression}
    (error_alike : Alike pairs error error') : AlikeStatement pairs (.throw error) (.throw error')

inductive AlikeStatements : List (String × String) → List Statement → List Statement → Prop
  | nil (pairs : List (String × String)) : AlikeStatements pairs [] []
  | cons {pairs : List (String × String)} {s s' : Statement} {rest rest' : List Statement}
    (head_alike : AlikeStatement pairs s s') (rest_alike : AlikeStatements pairs rest rest') :
    AlikeStatements pairs (s :: rest) (s' :: rest')

/-- The declarations of a block correspond in their order. -/
inductive AlikeBlock : List (String × String) → List Statement → List Statement → Prop
  | intro {pairs : List (String × String)} {body body' : List Statement}
    (same_length : (declared body).length = (declared body').length)
    (statements_alike :
      AlikeStatements ((declared body).zip (declared body') ++ pairs) body body') :
    AlikeBlock pairs body body'

end

theorem AlikeAll.append {pairs : List (String × String)}
    {first first' second second' : List Expression}
    (hfirst : AlikeAll pairs first first') (hsecond : AlikeAll pairs second second') :
    AlikeAll pairs (first ++ second) (first' ++ second') := by
  induction first generalizing first' with
  | nil =>
    cases hfirst
    exact hsecond
  | cons e rest ih =>
    cases hfirst with
    | cons hhead hrest => exact .cons hhead (ih hrest)

theorem Alike.endsInArrow_eq {pairs : List (String × String)} {e e' : Expression}
    (h : Alike pairs e e') : e.endsInArrow = e'.endsInArrow := by
  fun_induction Expression.endsInArrow e generalizing e' with
  | case1 params body =>
    cases h
    rfl
  | case2 param body =>
    cases h
    rfl
  | case3 op left right ih =>
    cases h with
    | operation op left_alike right_alike =>
      have hright := ih right_alike
      exact hright
  | case4 e harrow hbare hoperation =>
    cases h with
    | arrow params body_alike => exact absurd rfl (harrow _ _)
    | bareArrow param body_alike => exact absurd rfl (hbare _ _)
    | operation op left_alike right_alike => exact absurd rfl (hoperation _ _ _)
    | _ => rfl

theorem Alike.selected {pairs : List (String × String)} {e e' : Expression} (h : Alike pairs e e')
    (hleading : e.leading = e'.leading) : Alike pairs e.selected e'.selected := by
  fun_induction Expression.selected e generalizing e' with
  | case1 identifier =>
    cases h with
    | name linked =>
      cases hleading
      exact .word pairs identifier
  | case2 op left right ih =>
    cases h with
    | operation op left_alike right_alike =>
      exact .operation op (ih left_alike hleading) right_alike
  | case3 callee args ih =>
    cases h with
    | call callee_alike args_alike => exact .call (ih callee_alike hleading) args_alike
  | case4 object property ih =>
    cases h with
    | member object_alike property => exact .member (ih object_alike hleading) property
  | case5 object index ih =>
    cases h with
    | item object_alike index => exact .item (ih object_alike hleading) index
  | case6 e hname hoperation hcall hmember hitem =>
    cases h with
    | name linked => exact absurd rfl (hname _)
    | operation op left_alike right_alike => exact absurd rfl (hoperation _ _ _)
    | call callee_alike args_alike => exact absurd rfl (hcall _ _)
    | member object_alike property => exact absurd rfl (hmember _ _)
    | item object_alike index => exact absurd rfl (hitem _ _)
    | literal _ value => exact .literal pairs value
    | word _ identifier => exact .word pairs identifier
    | array items_alike => exact .array items_alike
    | arrow params body_alike => exact .arrow params body_alike
    | bareArrow param body_alike => exact .bareArrow param body_alike
    | function body_alike => exact .function body_alike
    | construct callee_alike args_alike => exact .construct callee_alike args_alike
    | parens inner_alike => exact .parens inner_alike

theorem mem_zip_self {names : List String} {entry : String × String}
    (h : entry ∈ names.zip names) : entry.1 = entry.2 ∧ entry.1 ∈ names := by
  induction names with
  | nil => simp at h
  | cons name rest ih =>
    rw [List.zip_cons_cons, List.mem_cons] at h
    rcases h with rfl | h
    · exact ⟨rfl, List.mem_cons_self⟩
    · exact ⟨(ih h).1, List.mem_cons_of_mem _ (ih h).2⟩

theorem isWhole_of_alike {pairs : List (String × String)} {e e' : Expression} (h : Alike pairs e e')
    (he : e.IsWhole) : e'.IsWhole := by
  rintro left' right' rfl
  cases h with
  | operation op left_alike right_alike => exact he _ _ rfl

/-- The right operands of an operator are alike, also inside arrows whose parameters satisfy `P`. -/
structure AlikeInside (P : String → Prop) (pairs : List (String × String))
    (right right' : Expression) :
    Prop where
  leading_eq : right.leading = right'.leading
  alike : ∀ more : List (String × String), (∀ entry ∈ more, entry.1 = entry.2 ∧ P entry.1) →
    Alike (more ++ pairs) right right'

namespace AlikeInside

variable {P : String → Prop} {pairs : List (String × String)} {right right' : Expression}

theorem here (h : AlikeInside P pairs right right') : Alike pairs right right' :=
  h.alike [] (by simp)

theorem inside (h : AlikeInside P pairs right right') (more : List (String × String))
    (hmore : ∀ entry ∈ more, entry.1 = entry.2 ∧ P entry.1) :
    AlikeInside P (more ++ pairs) right right' where
  leading_eq := h.leading_eq
  alike other hother := by
    rw [← List.append_assoc]
    refine h.alike _ fun entry hentry => ?_
    rcases List.mem_append.mp hentry with hentry | hentry
    · exact hother entry hentry
    · exact hmore entry hentry

theorem operation (h : AlikeInside P pairs right right') {left left' : Expression}
    (hleft : Alike pairs left left') (op : String) :
    Alike pairs (.operation op left (if op ∈ selectors then right.selected else right))
      (.operation op left' (if op ∈ selectors then right'.selected else right')) := by
  refine .operation op hleft ?_
  split
  · exact h.here.selected h.leading_eq
  · exact h.here

/-- What is changed in front of the first comma is alike inside the same arrows. -/
theorem overFirst {f f' : Expression → Expression}
    (hf : ∀ {e e' : Expression}, AlikeInside P pairs e e' → Alike pairs (f e) (f' e'))
    (h : AlikeInside P pairs right right') :
    Alike pairs (right.overFirst f) (right'.overFirst f') := by
  fun_induction Expression.overFirst f right generalizing right' with
  | case1 left right ih =>
    cases h.here with
    | operation op left_alike right_alike =>
      refine .operation _ (ih ⟨h.leading_eq, fun more hmore => ?_⟩) right_alike
      cases h.alike more hmore with
      | operation op left_alike right_alike => exact left_alike
  | case2 op left right hop =>
    cases h.here with
    | operation op left_alike right_alike =>
      rw [Expression.overFirst, if_neg hop]
      exact hf h
  | case3 e hne =>
    rw [overFirst_eq (isWhole_of_alike h.here fun left right => hne "," left right)]
    exact hf h

end AlikeInside

/-- An arrow at the end of the left operand takes the right one into the scope of its parameters. -/
theorem Alike.bound {P : String → Prop} {pairs : List (String × String)}
    {left left' right right' : Expression} (hleft : Alike pairs left left') (op : String)
    (hP : ∀ x ∈ left.trailing, P x) (h : AlikeInside P pairs right right') :
    Alike pairs (left.bound op right) (left'.bound op right') := by
  cases hleft with
  | arrow params body_alike =>
    rw [Expression.trailing, List.forall_mem_append] at hP
    refine .arrow params (body_alike.bound op hP.2 (h.inside _ fun entry hentry => ?_))
    obtain ⟨hsame, hmem⟩ := mem_zip_self hentry
    exact ⟨hsame, hP.1 _ hmem⟩
  | bareArrow param body_alike =>
    rw [Expression.trailing, List.forall_mem_cons] at hP
    refine .bareArrow param
      (body_alike.bound op hP.2 (h.inside [(param, param)] fun entry hentry => ?_))
    rw [List.mem_singleton.mp hentry]
    exact ⟨rfl, hP.1⟩
  | operation first left_alike last_alike =>
    have hends := last_alike.endsInArrow_eq
    unfold Expression.bound
    rw [← hends]
    split
    · exact .operation first left_alike (last_alike.bound op hP h)
    · exact h.operation (.operation first left_alike last_alike) op
  | literal _ value => exact h.operation (.literal pairs value) op
  | name linked => exact h.operation (.name linked) op
  | word _ identifier => exact h.operation (.word pairs identifier) op
  | array items_alike => exact h.operation (.array items_alike) op
  | function body_alike => exact h.operation (.function body_alike) op
  | call callee_alike args_alike => exact h.operation (.call callee_alike args_alike) op
  | member object_alike property => exact h.operation (.member object_alike property) op
  | item object_alike index => exact h.operation (.item object_alike index) op
  | construct callee_alike args_alike => exact h.operation (.construct callee_alike args_alike) op
  | parens inner_alike => exact h.operation (.parens inner_alike) op

theorem Alike.overLast {P : String → Prop} {pairs : List (String × String)}
    {f f' : Expression → Expression}
    (hf : ∀ {e e' : Expression}, Alike pairs e e' → (∀ x ∈ e.trailing, P x) →
      Alike pairs (f e) (f' e')) {left left' : Expression} (hleft : Alike pairs left left')
    (hP : ∀ x ∈ left.trailing, P x) : Alike pairs (left.overLast f) (left'.overLast f') := by
  fun_induction Expression.overLast f left generalizing left' with
  | case1 first last ih =>
    cases hleft with
    | operation op left_alike right_alike => exact .operation _ left_alike (ih right_alike hP)
  | case2 op first last hop =>
    cases hleft with
    | operation op left_alike right_alike =>
      rw [Expression.overLast, if_neg hop]
      exact hf (.operation op left_alike right_alike) hP
  | case3 e hne =>
    rw [overLast_eq (isWhole_of_alike hleft fun left right => hne "," left right)]
    exact hf hleft hP

/-- Operands that are alike are read alike, if an arrow mark makes the same parameter of both left
ones and the right ones are alike in the scope of all parameters that they may get into. -/
theorem Alike.joined {P : String → Prop} {pairs : List (String × String)}
    {left left' right right' : Expression} (hleft : Alike pairs left left') (op : String)
    (hparam : left.param? op = left'.param? op) (hP : ∀ x ∈ left.trailing, P x)
    (hparamP : ∀ x, left.param? op = some x → P x) (h : AlikeInside P pairs right right') :
    Alike pairs (left.joined op right) (left'.joined op right') := by
  unfold Expression.joined
  split
  · exact .operation op hleft h.here
  · rw [← hparam]
    split
    · rename_i param hsome
      refine h.overFirst fun inside => .bareArrow param (inside.alike [(param, param)] ?_)
      intro entry hentry
      rw [List.mem_singleton.mp hentry]
      exact ⟨rfl, hparamP param hsome⟩
    · refine hleft.overLast (fun last_alike hlast => ?_) hP
      exact h.overFirst fun inside => last_alike.bound op hlast inside

theorem AlikeAll.conjunction {pairs : List (String × String)} {tests tests' : List Expression}
    (h : AlikeAll pairs tests tests') : Alike pairs (conjunction tests) (conjunction tests') := by
  cases h with
  | nil => exact .literal pairs (.bool true)
  | cons head_alike rest_alike =>
    rename_i first first' rest rest'
    change Alike pairs (rest.foldl (.operation "&&") first) (rest'.foldl (.operation "&&") first')
    induction rest generalizing first first' rest' with
    | nil =>
      cases rest_alike
      exact head_alike
    | cons test rest ih =>
      cases rest_alike with
      | cons test_alike rest_alike =>
        have hrest := ih (.operation "&&" head_alike test_alike) rest_alike
        exact hrest

end Js
end CaseScript
