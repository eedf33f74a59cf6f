import CaseScript.Proofs.Js.Scope

/-!
# Operands in JavaScript programs

Two operands with an operator between them are not always read as one operation of both: commas stay
outside, an arrow on the left takes the right operand into its body, and an arrow mark or a dot
changes the role of a name. Nevertheless what they declare and name can be told from each of them.
-/

namespace CaseScript
namespace Js

/-! ## What is gathered from both operands -/

/-- Does a function that gathers something from an expression take it from all parts, from the
operators between them and from the parameters of arrows, in the order in which they are written? -/
structure Gathers {α : Type} (collect : Expression → List α) (mark : String → List α)
    (parameters : List String → List α) : Prop where
  name : ∀ identifier, collect (.name identifier) = []
  operation : ∀ op left right,
    collect (.operation op left right) = collect left ++ mark op ++ collect right
  arrow : ∀ params body, collect (.arrow params body) = parameters params ++ collect body
  bareArrow : ∀ param body, collect (.bareArrow param body) = parameters [param] ++ collect body
  selected : ∀ e, collect e.selected = collect e

namespace Gathers

variable {α : Type} {collect : Expression → List α} {mark : String → List α}
  {parameters : List String → List α}

theorem selected_if (h : Gathers collect mark parameters) (op : String) (right : Expression) :
    collect (if op ∈ selectors then right.selected else right) = collect right := by
  split
  · exact h.selected right
  · rfl

theorem bound (h : Gathers collect mark parameters) (left : Expression) (op : String)
    (right : Expression) :
    collect (left.bound op right) = collect left ++ mark op ++ collect right := by
  fun_induction Expression.bound left op right with
  | case1 params body op right ih =>
    rw [h.arrow, ih, h.arrow]
    simp only [List.append_assoc]
  | case2 param body op right ih =>
    rw [h.bareArrow, ih, h.bareArrow]
    simp only [List.append_assoc]
  | case3 first left last op right hends ih =>
    rw [h.operation, ih, h.operation]
    simp only [List.append_assoc]
  | case4 first left last op right hends => rw [h.operation, h.selected_if]
  | case5 left op right => rw [h.operation, h.selected_if]

theorem overFirst (h : Gathers collect mark parameters) {f : Expression → Expression}
    {front : List α} (hf : ∀ e, collect (f e) = front ++ collect e) (e : Expression) :
    collect (e.overFirst f) = front ++ collect e := by
  fun_induction Expression.overFirst f e with
  | case1 left right ih =>
    rw [h.operation, ih, h.operation]
    simp only [List.append_assoc]
  | case2 op left right hop => exact hf _
  | case3 e => exact hf e

theorem overLast (h : Gathers collect mark parameters) {f : Expression → Expression}
    {back : List α} (hf : ∀ e, collect (f e) = collect e ++ back) (e : Expression) :
    collect (e.overLast f) = collect e ++ back := by
  fun_induction Expression.overLast f e with
  | case1 left right ih =>
    rw [h.operation, ih, h.operation]
    simp only [List.append_assoc]
  | case2 op left right hop => exact hf _
  | case3 e => exact hf e

/-- However two operands are read, they are gathered from in turn, and what is between them as well:
the operator, or the parameter that an arrow mark makes of the left operand. -/
theorem joined (h : Gathers collect mark parameters) (left : Expression) (op : String)
    (right : Expression) :
    collect (left.joined op right) =
      collect left ++ ((left.param? op).elim (mark op) fun param => parameters [param]) ++
        collect right := by
  unfold Expression.joined
  split
  · rename_i hcomma
    have hnone : left.param? op = none := by
      subst hcomma
      cases left <;> rfl
    rw [hnone, h.operation, Option.elim_none]
  · split
    · rename_i param hparam
      obtain ⟨rfl, rfl⟩ := param?_eq_some hparam
      rw [h.overFirst (h.bareArrow param), h.name, List.nil_append, hparam, Option.elim_some]
    · rename_i hparam
      have hlast : ∀ last : Expression, collect (right.overFirst (last.bound op)) =
          collect last ++ (mark op ++ collect right) := by
        intro last
        rw [h.overFirst (h.bound last op), List.append_assoc]
      rw [h.overLast hlast, hparam, Option.elim_none, List.append_assoc]

end Gathers

theorem gathers_operators : Gathers Expression.operators (fun op => [op]) fun _ => [] where
  name _ := rfl
  operation _ _ _ := rfl
  arrow _ _ := rfl
  bareArrow _ _ := rfl
  selected e := by
    fun_induction Expression.selected e with
    | case1 identifier => rfl
    | case2 op left right ih => rw [Expression.operators, ih, Expression.operators]
    | case3 callee args ih => rw [Expression.operators, ih, Expression.operators]
    | case4 object property ih => rw [Expression.operators, ih, Expression.operators]
    | case5 object index ih => rw [Expression.operators, ih, Expression.operators]
    | case6 e => rfl

theorem gathers_binders : Gathers Expression.binders (fun _ => []) id where
  name _ := rfl
  operation _ left right := by rw [Expression.binders, List.append_nil]
  arrow _ _ := rfl
  bareArrow _ _ := rfl
  selected e := by
    fun_induction Expression.selected e with
    | case1 identifier => rfl
    | case2 op left right ih => rw [Expression.binders, ih, Expression.binders]
    | case3 callee args ih => rw [Expression.binders, ih, Expression.binders]
    | case4 object property ih => rw [Expression.binders, ih, Expression.binders]
    | case5 object index ih => rw [Expression.binders, ih, Expression.binders]
    | case6 e => rfl

theorem gathers_scopes : Gathers Expression.scopes (fun _ => []) fun params => [params] where
  name _ := rfl
  operation _ left right := by rw [Expression.scopes, List.append_nil]
  arrow _ _ := rfl
  bareArrow _ _ := rfl
  selected e := by
    fun_induction Expression.selected e with
    | case1 identifier => rfl
    | case2 op left right ih => rw [Expression.scopes, ih, Expression.scopes]
    | case3 callee args ih => rw [Expression.scopes, ih, Expression.scopes]
    | case4 object property ih => rw [Expression.scopes, ih, Expression.scopes]
    | case5 object index ih => rw [Expression.scopes, ih, Expression.scopes]
    | case6 e => rfl

/-! ## Names that are declared behind a comma -/

theorem targets_bound (left : Expression) (op : String) (right : Expression) :
    (left.bound op right).targets = left.targets := by
  fun_induction Expression.bound left op right with
  | case5 left op right => rfl
  | _ => rfl

theorem targets_overFirst {f : Expression → Expression} (names : List String)
    (h : ∀ e, (f e).targets = names) (e : Expression) : (e.overFirst f).targets = names := by
  fun_induction Expression.overFirst f e with
  | case1 left right ih => exact ih
  | case2 op left right hop => exact h _
  | case3 e => exact h e

theorem targets_overLast {f : Expression → Expression} (h : ∀ e, (f e).targets = e.targets)
    (e : Expression) : (e.overLast f).targets = e.targets := by
  fun_induction Expression.overLast f e with
  | case1 left right ih => rfl
  | case2 op left right hop => exact h _
  | case3 e => exact h e

/-- An expression begins with the same target whatever stands behind it. -/
theorem targets_joined (left : Expression) (op : String) (right : Expression) :
    (left.joined op right).targets = left.targets := by
  unfold Expression.joined
  split
  · rfl
  · split
    · rename_i param hparam
      obtain ⟨rfl, -⟩ := param?_eq_some hparam
      exact targets_overFirst [param] (fun _ => rfl) right
    · exact targets_overLast (fun last => targets_overFirst _ (targets_bound last op) right) left

/-- Is an expression without commas at its root? -/
def Expression.IsWhole (e : Expression) : Prop := ∀ left right, e ≠ .operation "," left right

theorem later_eq_nil {e : Expression} (h : e.IsWhole) : e.later = [] := by
  cases e with
  | operation op left right =>
    have hop : op ≠ "," := fun hop => h left right (by rw [hop])
    exact if_neg hop
  | _ => rfl

theorem overFirst_eq {e : Expression} (h : e.IsWhole) (f : Expression → Expression) :
    e.overFirst f = f e := by
  cases e with
  | operation op left right =>
    have hop : op ≠ "," := fun hop => h left right (by rw [hop])
    exact if_neg hop
  | _ => rfl

theorem overLast_eq {e : Expression} (h : e.IsWhole) (f : Expression → Expression) :
    e.overLast f = f e := by
  cases e with
  | operation op left right =>
    have hop : op ≠ "," := fun hop => h left right (by rw [hop])
    exact if_neg hop
  | _ => rfl

theorem isWhole_bound {left : Expression} (h : left.IsWhole) {op : String} (hop : op ≠ ",")
    (right : Expression) : (left.bound op right).IsWhole := by
  intro first second heq
  cases left with
  | operation =>
    rw [Expression.bound] at heq
    split at heq
    · injection heq with hfirst
      exact h _ _ (by rw [hfirst])
    · injection heq with hop'
      exact hop hop'
  | arrow => cases heq
  | bareArrow => cases heq
  | _ =>
    injection heq with hop'
    exact hop hop'

theorem later_overFirst {f : Expression → Expression} (h : ∀ {e}, e.IsWhole → (f e).IsWhole)
    (e : Expression) : (e.overFirst f).later = e.later := by
  fun_induction Expression.overFirst f e with
  | case1 left right ih => rw [Expression.later, Expression.later, ih]
  | case2 op left right hop =>
    have hwhole : (Expression.operation op left right).IsWhole := by
      intro _ _ heq
      injection heq with hop'
      exact hop hop'
    rw [later_eq_nil (h hwhole), later_eq_nil hwhole]
  | case3 e hne =>
    have hwhole : e.IsWhole := fun left right => hne "," left right
    rw [later_eq_nil (h hwhole), later_eq_nil hwhole]

theorem later_overLast {f : Expression → Expression} {names : List String}
    (htargets : ∀ e, (f e).targets = e.targets)
    (hlater : ∀ {e : Expression}, e.IsWhole → (f e).later = names) (e : Expression) :
    (e.overLast f).later = e.later ++ names := by
  fun_induction Expression.overLast f e with
  | case1 left right ih =>
    simp only [Expression.later, if_true, ih, List.append_assoc, targets_overLast htargets]
  | case2 op left right hop =>
    have hwhole : (Expression.operation op left right).IsWhole := by
      intro _ _ heq
      injection heq with hop'
      exact hop hop'
    rw [hlater hwhole, later_eq_nil hwhole, List.nil_append]
  | case3 e hne =>
    have hwhole : e.IsWhole := fun left right => hne "," left right
    rw [hlater hwhole, later_eq_nil hwhole, List.nil_append]

/-- Only a comma adds a target to those behind commas in the operands. -/
theorem later_joined (left : Expression) (op : String) (right : Expression) :
    (left.joined op right).later =
      left.later ++ (if op = "," then right.targets else []) ++ right.later := by
  unfold Expression.joined
  split
  · rename_i hcomma
    subst hcomma
    rfl
  · rename_i hcomma
    rw [List.append_nil]
    split
    · rename_i param hparam
      obtain ⟨rfl, -⟩ := param?_eq_some hparam
      exact later_overFirst (fun _ _ _ h => by cases h) right
    · refine later_overLast (fun last => ?_) (fun hlast => ?_) left
      · exact targets_overFirst _ (targets_bound last op) right
      · exact later_overFirst (fun _ => isWhole_bound hlast hcomma _) right

/-! ## Names at the beginning -/

/-- The name that an expression begins with. -/
def Expression.leading : Expression → Option String
  | .name identifier => some identifier
  | .operation _ left _ => left.leading
  | .call callee _ => callee.leading
  | .member object _ | .item object _ => object.leading
  | .bareArrow param _ => some param
  | _ => none

theorem leading_bound (left : Expression) (op : String) (right : Expression) :
    (left.bound op right).leading = left.leading := by
  fun_induction Expression.bound left op right <;> rfl

theorem leading_overFirst {f : Expression → Expression} (first : Option String)
    (h : ∀ e, (f e).leading = first) (e : Expression) : (e.overFirst f).leading = first := by
  fun_induction Expression.overFirst f e with
  | case1 left right ih => exact ih
  | case2 op left right hop => exact h _
  | case3 e => exact h e

theorem leading_overLast {f : Expression → Expression} (h : ∀ e, (f e).leading = e.leading)
    (e : Expression) : (e.overLast f).leading = e.leading := by
  fun_induction Expression.overLast f e with
  | case1 left right ih => rfl
  | case2 op left right hop => exact h _
  | case3 e => exact h e

theorem leading_joined (left : Expression) (op : String) (right : Expression) :
    (left.joined op right).leading = left.leading := by
  unfold Expression.joined
  split
  · rfl
  · split
    · rename_i param hparam
      obtain ⟨rfl, -⟩ := param?_eq_some hparam
      exact leading_overFirst (some param) (fun _ => rfl) right
    · exact leading_overLast (fun last => leading_overFirst _ (leading_bound last op) right) left

theorem param?_overFirst {f : Expression → Expression} {mark : String}
    (h : ∀ e, (f e).param? mark = none) (e : Expression) : (e.overFirst f).param? mark = none := by
  fun_induction Expression.overFirst f e with
  | case1 left right ih => rfl
  | case2 op left right hop => exact h _
  | case3 e => exact h e

theorem param?_bound (left : Expression) (op : String) (right : Expression) (mark : String) :
    (left.bound op right).param? mark = none := by
  fun_induction Expression.bound left op right <;> rfl

/-- Two operands are not a single name. -/
theorem param?_joined (left : Expression) (op : String) (right : Expression) (mark : String) :
    (left.joined op right).param? mark = none := by
  unfold Expression.joined
  split
  · rfl
  · split
    · exact param?_overFirst (fun _ => rfl) right
    · have hlast : ∀ last : Expression, (right.overFirst (last.bound op)).param? mark = none :=
        fun last => param?_overFirst (fun e => param?_bound last op e mark) right
      fun_induction Expression.overLast (fun last => right.overFirst (last.bound op)) left with
      | case1 left last ih => rfl
      | case2 first left last hfirst => exact hlast _
      | case3 e => exact hlast e

/-! ## What is free in operands -/

theorem mem_free_selected {e : Expression} {x : String} (h : x ∈ e.selected.free) : x ∈ e.free := by
  fun_induction Expression.selected e with
  | case1 identifier => cases h
  | case2 op left right ih =>
    rcases List.mem_append.mp h with h | h
    · exact List.mem_append_left _ (ih h)
    · exact List.mem_append_right _ h
  | case3 callee args ih =>
    rcases List.mem_append.mp h with h | h
    · exact List.mem_append_left _ (ih h)
    · exact List.mem_append_right _ h
  | case4 object property ih => exact ih h
  | case5 object index ih => exact ih h
  | case6 e => exact h

theorem mem_free_operation {op : String} {left right : Expression} {x : String}
    (h : x ∈ (Expression.operation op left
      (if op ∈ selectors then right.selected else right)).free) :
    x ∈ left.free ∨ x ∈ right.free := by
  rcases List.mem_append.mp h with h | h
  · exact .inl h
  · split at h
    · exact .inr (mem_free_selected h)
    · exact .inr h

theorem mem_free_bound {left : Expression} {op : String} {right : Expression} {x : String}
    (h : x ∈ (left.bound op right).free) : x ∈ left.free ∨ x ∈ right.free := by
  fun_induction Expression.bound left op right with
  | case1 params body op right ih =>
    obtain ⟨h, hparams⟩ := List.mem_filter.mp h
    exact (ih h).imp_left fun h => List.mem_filter.mpr ⟨h, hparams⟩
  | case2 param body op right ih =>
    obtain ⟨h, hparam⟩ := List.mem_filter.mp h
    exact (ih h).imp_left fun h => List.mem_filter.mpr ⟨h, hparam⟩
  | case3 first left last op right hends ih =>
    rcases List.mem_append.mp h with h | h
    · exact .inl (List.mem_append_left _ h)
    · exact (ih h).imp_left (List.mem_append_right _)
  | case4 first left last op right hends => exact mem_free_operation h
  | case5 left op right => exact mem_free_operation h

theorem mem_free_overFirst {f : Expression → Expression} (names : List String) {x : String}
    (hf : ∀ e : Expression, x ∈ (f e).free → x ∈ names ∨ x ∈ e.free) {e : Expression}
    (h : x ∈ (e.overFirst f).free) : x ∈ names ∨ x ∈ e.free := by
  fun_induction Expression.overFirst f e with
  | case1 left right ih =>
    rcases List.mem_append.mp h with h | h
    · exact (ih h).imp_right (List.mem_append_left _)
    · exact .inr (List.mem_append_right _ h)
  | case2 op left right hop => exact hf _ h
  | case3 e => exact hf e h

theorem mem_free_overLast {f : Expression → Expression} {names : List String} {x : String}
    (hf : ∀ e : Expression, x ∈ (f e).free → x ∈ e.free ∨ x ∈ names) {e : Expression}
    (h : x ∈ (e.overLast f).free) : x ∈ e.free ∨ x ∈ names := by
  fun_induction Expression.overLast f e with
  | case1 left right ih =>
    rcases List.mem_append.mp h with h | h
    · exact .inl (List.mem_append_left _ h)
    · exact (ih h).imp_left (List.mem_append_right _)
  | case2 op left right hop => exact hf _ h
  | case3 e => exact hf e h

/-- However two operands are read, nothing else is free in them together. -/
theorem mem_free_joined {left : Expression} {op : String} {right : Expression} {x : String}
    (h : x ∈ (left.joined op right).free) : x ∈ left.free ∨ x ∈ right.free := by
  unfold Expression.joined at h
  split at h
  · exact List.mem_append.mp h
  · split at h
    · rename_i param hparam
      exact mem_free_overFirst left.free (fun e he => .inr (List.mem_filter.mp he).1) h
    · refine mem_free_overLast (fun last hlast => ?_) h
      exact mem_free_overFirst _ (fun e => mem_free_bound) hlast

/-! ## Parameters at the end of an operand -/

theorem trailing_selected (e : Expression) : e.selected.trailing = e.trailing := by
  cases e <;> rfl

theorem trailing_of_closed {e : Expression} (harrow : ∀ params body, e ≠ .arrow params body)
    (hbare : ∀ param body, e ≠ .bareArrow param body)
    (hoperation : ∀ op left right, e ≠ .operation op left right) : e.trailing = [] := by
  cases e with
  | arrow params body => exact absurd rfl (harrow params body)
  | bareArrow param body => exact absurd rfl (hbare param body)
  | operation op left right => exact absurd rfl (hoperation op left right)
  | _ => rfl

theorem trailing_eq_nil {e : Expression} (h : e.endsInArrow = false) : e.trailing = [] := by
  fun_induction Expression.endsInArrow e with
  | case1 params body => cases h
  | case2 param body => cases h
  | case3 op left right ih => exact ih h
  | case4 e harrow hbare hoperation => exact trailing_of_closed harrow hbare hoperation

theorem trailing_operation (op : String) (left right : Expression) :
    (Expression.operation op left (if op ∈ selectors then right.selected else right)).trailing =
      right.trailing := by
  rw [Expression.trailing]
  split
  · exact trailing_selected right
  · rfl

theorem trailing_bound (left : Expression) (op : String) (right : Expression) :
    (left.bound op right).trailing = left.trailing ++ right.trailing := by
  fun_induction Expression.bound left op right with
  | case1 params body op right ih =>
    rw [Expression.trailing, ih, Expression.trailing, List.append_assoc]
  | case2 param body op right ih =>
    rw [Expression.trailing, ih, Expression.trailing, List.cons_append]
  | case3 first left last op right hends ih => rw [Expression.trailing, ih, Expression.trailing]
  | case4 first left last op right hends =>
    have hlast : last.trailing = [] := trailing_eq_nil (by simpa using hends)
    rw [trailing_operation, Expression.trailing, hlast, List.nil_append]
  | case5 left op right harrow hbare hoperation =>
    rw [trailing_operation, trailing_of_closed harrow hbare hoperation, List.nil_append]

theorem mem_trailing_overFirst {f : Expression → Expression} (names : List String) {x : String}
    (hf : ∀ e : Expression, x ∈ (f e).trailing → x ∈ names ∨ x ∈ e.trailing) {e : Expression}
    (h : x ∈ (e.overFirst f).trailing) : x ∈ names ∨ x ∈ e.trailing := by
  fun_induction Expression.overFirst f e with
  | case1 left right ih => exact .inr h
  | case2 op left right hop => exact hf _ h
  | case3 e => exact hf e h

theorem mem_trailing_overLast {f : Expression → Expression} {names : List String} {x : String}
    (hf : ∀ e : Expression, x ∈ (f e).trailing → x ∈ e.trailing ∨ x ∈ names) {e : Expression}
    (h : x ∈ (e.overLast f).trailing) : x ∈ e.trailing ∨ x ∈ names := by
  fun_induction Expression.overLast f e with
  | case1 left right ih => exact ih h
  | case2 op left right hop => exact hf _ h
  | case3 e => exact hf e h

/-- The parameters behind two operands are those behind each of them, and that of an arrow mark. -/
theorem mem_trailing_joined {left : Expression} {op : String} {right : Expression} {x : String}
    (h : x ∈ (left.joined op right).trailing) :
    x ∈ left.trailing ∨ left.param? op = some x ∨ x ∈ right.trailing := by
  unfold Expression.joined at h
  split at h
  · exact .inr (.inr h)
  · split at h
    · rename_i param hparam
      refine .inr ((mem_trailing_overFirst [param] (fun e he => ?_) h).imp_left fun h => ?_)
      · simpa [Expression.trailing] using he
      · rw [hparam, List.mem_singleton.mp h]
    · refine (mem_trailing_overLast (fun last hlast => ?_) h).imp_right .inr
      refine mem_trailing_overFirst _ (fun e he => ?_) hlast
      rw [trailing_bound] at he
      exact List.mem_append.mp he

/-! ## Operators that join two values -/

section Joiners

variable {left right : Expression} {op : String}

theorem joined_eq_bound (hop : op ∈ joiners) (hleft : left.IsWhole) (hright : right.IsWhole) :
    left.joined op right = left.bound op right := by
  have hcomma : op ≠ "," := by
    rintro rfl
    revert hop
    decide
  have hnone : left.param? op = none := by
    cases left with
    | name identifier =>
      refine if_neg ?_
      rintro rfl
      revert hop
      decide
    | _ => rfl
  rw [Expression.joined, if_neg hcomma, hnone]
  change left.overLast (fun last => right.overFirst (last.bound op)) = left.bound op right
  rw [overLast_eq hleft, overFirst_eq hright]

theorem isWhole_joined (hop : op ∈ joiners) (hleft : left.IsWhole) (hright : right.IsWhole) :
    (left.joined op right).IsWhole := by
  rw [joined_eq_bound hop hleft hright]
  refine isWhole_bound hleft ?_ right
  rintro rfl
  revert hop
  decide

theorem free_bound (hop : op ∈ joiners) (left right : Expression) :
    (left.bound op right).free = left.free ++ right.free.filter (· ∉ left.trailing) := by
  have hselector : op ∉ selectors := by
    have hnone : ∀ op ∈ joiners, op ∉ selectors := by decide
    exact hnone op hop
  fun_induction Expression.bound left op right with
  | case1 params body op right ih =>
    rw [Expression.free, ih hop hselector, List.filter_append, List.filter_filter, Expression.free]
    congr 1
    exact List.filter_congr fun name _ => by simp [Expression.trailing]
  | case2 param body op right ih =>
    rw [Expression.free, ih hop hselector, List.filter_append, List.filter_filter, Expression.free]
    congr 1
    exact List.filter_congr fun name _ => by simp [Expression.trailing]
  | case3 first left last op right hends ih =>
    rw [Expression.free, ih hop hselector, ← List.append_assoc]
    rfl
  | case4 first left last op right hends =>
    have hlast : last.trailing = [] := trailing_eq_nil (by simpa using hends)
    have hkept : right.free.filter (· ∉ last.trailing) = right.free :=
      List.filter_eq_self.mpr fun name _ => by simp [hlast]
    rw [if_neg hselector, Expression.trailing, hkept]
    rfl
  | case5 left op right harrow hbare hoperation =>
    have hleft : left.trailing = [] := trailing_of_closed harrow hbare hoperation
    have hkept : right.free.filter (· ∉ left.trailing) = right.free :=
      List.filter_eq_self.mpr fun name _ => by simp [hleft]
    rw [if_neg hselector, hkept, Expression.free]

/-- The parameters of an arrow on the left capture what is written on the right. -/
theorem free_joined (hop : op ∈ joiners) (hleft : left.IsWhole) (hright : right.IsWhole) :
    (left.joined op right).free = left.free ++ right.free.filter (· ∉ left.trailing) := by
  rw [joined_eq_bound hop hleft hright, free_bound hop]

theorem trailing_joined (hop : op ∈ joiners) (hleft : left.IsWhole) (hright : right.IsWhole) :
    (left.joined op right).trailing = left.trailing ++ right.trailing := by
  rw [joined_eq_bound hop hleft hright, trailing_bound]

end Joiners

end Js
end CaseScript
