import CaseScript.Proofs.Pattern.Matching

/-!
# Free names of expressions

A function binds its parameters in its body, a local definition its name in its value and its body,
and a clause the names of its pattern in its own body only. Scripts expose fewer names: there the
names of the clause that ends a match are in scope in the whole match, and the parameters of a
function that ends a left operand in the right operand. Clauses that are never reached are left out.
-/

namespace CaseScript

/-- The names of the clause that ends a match. -/
def Clause.finalNames : List Clause → List Text
  | [] => []
  | ⟨pattern, _⟩ :: rest => if pattern.catchesAll then pattern.names else finalNames rest

/-- The clauses up to the first whose pattern matches by its form alone. -/
def Script.reached : List Clause → List Clause
  | [] => []
  | clause :: rest => if clause.pattern.catchesAll then [clause] else clause :: reached rest

namespace Expr

mutual

/-- The free names of an expression, as they occur from left to right. -/
def free : Expr → List Text
  | literal _ => []
  | var name => [name]
  | list items => itemsFree items
  | binop _ left right => left.free ++ right.free
  | letIn name value body => (value.free ++ body.free).filter (· ≠ name)
  | apply function args => function.free ++ itemsFree args
  | lambda params body => body.free.filter (· ∉ params)
  | cases subject clauses => subject.free ++ clausesFree clauses

def itemsFree : List Expr → List Text
  | [] => []
  | item :: rest => item.free ++ itemsFree rest

def clausesFree : List Clause → List Text
  | [] => []
  | ⟨pattern, body⟩ :: rest =>
    body.free.filter (· ∉ pattern.names) ++ if pattern.catchesAll then [] else clausesFree rest

end

/-- The parameters that are still in scope behind the script of an expression. -/
def trailing : Expr → List Text
  | lambda params body => params ++ body.trailing
  | binop _ left right => left.trailing ++ right.trailing
  | _ => []

mutual

/-- The occurrences of free names that are free in the script as well. -/
def exposed : Expr → List Text
  | literal _ => []
  | var name => [name]
  | list items => itemsExposed items
  | binop _ left right => left.exposed ++ right.exposed.filter (· ∉ left.trailing)
  | letIn name value body => (value.exposed ++ body.exposed).filter (· ≠ name)
  | apply function args => function.exposed ++ itemsExposed args
  | lambda params body => body.exposed.filter (· ∉ params)
  | cases subject clauses =>
    (subject.exposed ++ clausesExposed clauses).filter (· ∉ Clause.finalNames clauses)

def itemsExposed : List Expr → List Text
  | [] => []
  | item :: rest => item.exposed ++ itemsExposed rest

/-- The names of the last clause are not taken away here but from the whole match. -/
def clausesExposed : List Clause → List Text
  | [] => []
  | ⟨pattern, body⟩ :: rest =>
    if pattern.catchesAll then body.exposed
    else body.exposed.filter (· ∉ pattern.names) ++ clausesExposed rest

end

mutual

/-- An expression and all expressions inside it, apart from clauses that are never reached. -/
def subexprs : Expr → List Expr
  | literal value => [literal value]
  | var name => [var name]
  | list items => list items :: itemSubexprs items
  | binop op left right => binop op left right :: (left.subexprs ++ right.subexprs)
  | letIn name value body => letIn name value body :: (value.subexprs ++ body.subexprs)
  | apply function args => apply function args :: (function.subexprs ++ itemSubexprs args)
  | lambda params body => lambda params body :: body.subexprs
  | cases subject clauses =>
    cases subject clauses :: (subject.subexprs ++ clauseSubexprs clauses)

def itemSubexprs : List Expr → List Expr
  | [] => []
  | item :: rest => item.subexprs ++ itemSubexprs rest

def clauseSubexprs : List Clause → List Expr
  | [] => []
  | ⟨pattern, body⟩ :: rest =>
    body.subexprs ++ if pattern.catchesAll then [] else clauseSubexprs rest

end

mutual

/-- No name that a match uses freely is bound by the clause that ends it, and no name that a right
operand uses freely is a parameter that is still in scope there. -/
def Uncaptured : Expr → Prop
  | literal _ | var _ => True
  | list items => ItemsUncaptured items
  | binop _ left right =>
    left.Uncaptured ∧ right.Uncaptured ∧ ∀ name ∈ right.free, name ∉ left.trailing
  | letIn _ value body => value.Uncaptured ∧ body.Uncaptured
  | apply function args => function.Uncaptured ∧ ItemsUncaptured args
  | lambda _ body => body.Uncaptured
  | cases subject clauses =>
    subject.Uncaptured ∧ ClausesUncaptured clauses ∧
      ∀ name ∈ subject.free ++ clausesFree clauses, name ∉ Clause.finalNames clauses

def ItemsUncaptured : List Expr → Prop
  | [] => True
  | item :: rest => item.Uncaptured ∧ ItemsUncaptured rest

def ClausesUncaptured : List Clause → Prop
  | [] => True
  | ⟨pattern, body⟩ :: rest =>
    body.Uncaptured ∧ if pattern.catchesAll then True else ClausesUncaptured rest

end

mutual

/-- A script may lose free names, but it adds none. -/
theorem exposed_sublist (e : Expr) : e.exposed.Sublist e.free := by
  cases e with
  | literal value => exact .refl _
  | var name => exact .refl _
  | list items => exact itemsExposed_sublist items
  | binop op left right =>
    exact (exposed_sublist left).append
      ((List.filter_sublist).trans (exposed_sublist right))
  | letIn name value body =>
    exact ((exposed_sublist value).append (exposed_sublist body)).filter _
  | apply function args => exact (exposed_sublist function).append (itemsExposed_sublist args)
  | lambda params body => exact (exposed_sublist body).filter _
  | cases subject clauses =>
    rw [exposed, List.filter_append]
    exact ((List.filter_sublist).trans (exposed_sublist subject)).append
      (clausesExposed_sublist clauses)

theorem itemsExposed_sublist (items : List Expr) :
    (itemsExposed items).Sublist (itemsFree items) := by
  cases items with
  | nil => exact .refl _
  | cons item rest => exact (exposed_sublist item).append (itemsExposed_sublist rest)

theorem clausesExposed_sublist (clauses : List Clause) :
    ((clausesExposed clauses).filter (· ∉ Clause.finalNames clauses)).Sublist
      (clausesFree clauses) := by
  cases clauses with
  | nil => exact .refl _
  | cons clause rest =>
    obtain ⟨pattern, body⟩ := clause
    by_cases h : pattern.catchesAll = true
    · simp only [clausesExposed, clausesFree, Clause.finalNames, h, if_true, List.append_nil]
      exact (exposed_sublist body).filter _
    · simp only [clausesExposed, clausesFree, Clause.finalNames, h, Bool.false_eq_true, if_false,
        List.filter_append]
      exact ((List.filter_sublist).trans ((exposed_sublist body).filter _)).append
        (clausesExposed_sublist rest)

end

theorem self_mem_subexprs (e : Expr) : e ∈ e.subexprs := by
  cases e <;> exact List.mem_cons_self

mutual

/-- The parts of a part are parts of the whole. -/
theorem mem_subexprs_trans {e s t : Expr} (hs : s ∈ e.subexprs) (ht : t ∈ s.subexprs) :
    t ∈ e.subexprs := by
  cases e with
  | literal value => exact List.mem_singleton.mp hs ▸ ht
  | var name => exact List.mem_singleton.mp hs ▸ ht
  | list items =>
    rcases List.mem_cons.mp hs with rfl | hs
    · exact ht
    · exact List.mem_cons_of_mem _ (mem_itemSubexprs_trans hs ht)
  | binop op left right =>
    rcases List.mem_cons.mp hs with rfl | hs
    · exact ht
    · refine List.mem_cons_of_mem _ (List.mem_append.mpr ?_)
      exact (List.mem_append.mp hs).imp (mem_subexprs_trans · ht) (mem_subexprs_trans · ht)
  | letIn name value body =>
    rcases List.mem_cons.mp hs with rfl | hs
    · exact ht
    · refine List.mem_cons_of_mem _ (List.mem_append.mpr ?_)
      exact (List.mem_append.mp hs).imp (mem_subexprs_trans · ht) (mem_subexprs_trans · ht)
  | apply function args =>
    rcases List.mem_cons.mp hs with rfl | hs
    · exact ht
    · refine List.mem_cons_of_mem _ (List.mem_append.mpr ?_)
      exact (List.mem_append.mp hs).imp (mem_subexprs_trans · ht) (mem_itemSubexprs_trans · ht)
  | lambda params body =>
    rcases List.mem_cons.mp hs with rfl | hs
    · exact ht
    · exact List.mem_cons_of_mem _ (mem_subexprs_trans hs ht)
  | cases subject clauses =>
    rcases List.mem_cons.mp hs with rfl | hs
    · exact ht
    · refine List.mem_cons_of_mem _ (List.mem_append.mpr ?_)
      exact (List.mem_append.mp hs).imp (mem_subexprs_trans · ht) (mem_clauseSubexprs_trans · ht)

theorem mem_itemSubexprs_trans {items : List Expr} {s t : Expr} (hs : s ∈ itemSubexprs items)
    (ht : t ∈ s.subexprs) : t ∈ itemSubexprs items := by
  cases items with
  | nil => cases hs
  | cons item rest =>
    rw [itemSubexprs, List.mem_append] at hs ⊢
    exact hs.imp (mem_subexprs_trans · ht) (mem_itemSubexprs_trans · ht)

theorem mem_clauseSubexprs_trans {clauses : List Clause} {s t : Expr}
    (hs : s ∈ clauseSubexprs clauses) (ht : t ∈ s.subexprs) : t ∈ clauseSubexprs clauses := by
  cases clauses with
  | nil => cases hs
  | cons clause rest =>
    obtain ⟨pattern, body⟩ := clause
    rw [clauseSubexprs, List.mem_append] at hs ⊢
    refine hs.imp (mem_subexprs_trans · ht) fun hrest => ?_
    split at hrest
    · cases hrest
    · rw [if_neg ‹_›]
      exact mem_clauseSubexprs_trans hrest ht

end

theorem itemsExposed_eq {items : List Expr}
    (h : ∀ s ∈ itemSubexprs items, s.exposed = s.free) : itemsExposed items = itemsFree items := by
  induction items with
  | nil => rfl
  | cons item rest ih =>
    rw [itemSubexprs, List.forall_mem_append] at h
    rw [itemsExposed, itemsFree, h.1 item (self_mem_subexprs item), ih h.2]

theorem clausesExposed_eq {clauses : List Clause}
    (h : ∀ s ∈ clauseSubexprs clauses, s.exposed = s.free) :
    (clausesExposed clauses).filter (· ∉ Clause.finalNames clauses) =
      (clausesFree clauses).filter (· ∉ Clause.finalNames clauses) := by
  induction clauses with
  | nil => rfl
  | cons clause rest ih =>
    obtain ⟨pattern, body⟩ := clause
    rw [clauseSubexprs, List.forall_mem_append] at h
    have hbody : body.exposed = body.free := h.1 body (self_mem_subexprs body)
    by_cases hp : pattern.catchesAll = true
    · simp [clausesExposed, clausesFree, Clause.finalNames, hp, hbody]
    · simp only [hp, Bool.false_eq_true, if_false] at h
      simp only [clausesExposed, clausesFree, Clause.finalNames, hp, Bool.false_eq_true, if_false,
        List.filter_append, hbody, ih h.2]

mutual

/-- The scripts of all parts of an expression have the free names of the parts just if nothing is
captured. -/
theorem exposed_eq_iff {e : Expr} :
    (∀ s ∈ e.subexprs, s.exposed = s.free) ↔ e.Uncaptured := by
  cases e with
  | literal value => simp [subexprs, exposed, free, Uncaptured]
  | var name => simp [subexprs, exposed, free, Uncaptured]
  | list items =>
    rw [subexprs, List.forall_mem_cons, itemsExposed_eq_iff, Uncaptured]
    refine ⟨fun h => h.2, fun h => ⟨?_, h⟩⟩
    exact itemsExposed_eq (itemsExposed_eq_iff.mpr h)
  | binop op left right =>
    rw [subexprs, List.forall_mem_cons, List.forall_mem_append, exposed_eq_iff, exposed_eq_iff,
      Uncaptured]
    constructor
    · rintro ⟨hself, hleft, hright⟩
      refine ⟨hleft, hright, ?_⟩
      have hl := exposed_eq_iff.mpr hleft left (self_mem_subexprs left)
      have hr := exposed_eq_iff.mpr hright right (self_mem_subexprs right)
      rw [exposed, free, hl, hr, List.append_cancel_left_eq, List.filter_eq_self] at hself
      simpa using hself
    · rintro ⟨hleft, hright, hnone⟩
      refine ⟨?_, hleft, hright⟩
      have hl := exposed_eq_iff.mpr hleft left (self_mem_subexprs left)
      have hr := exposed_eq_iff.mpr hright right (self_mem_subexprs right)
      rw [exposed, free, hl, hr, List.append_cancel_left_eq, List.filter_eq_self]
      simpa using hnone
  | letIn name value body =>
    rw [subexprs, List.forall_mem_cons, List.forall_mem_append, exposed_eq_iff, exposed_eq_iff,
      Uncaptured]
    refine ⟨fun h => h.2, fun h => ⟨?_, h⟩⟩
    rw [exposed, free, exposed_eq_iff.mpr h.1 value (self_mem_subexprs value),
      exposed_eq_iff.mpr h.2 body (self_mem_subexprs body)]
  | apply function args =>
    rw [subexprs, List.forall_mem_cons, List.forall_mem_append, exposed_eq_iff, itemsExposed_eq_iff,
      Uncaptured]
    refine ⟨fun h => h.2, fun h => ⟨?_, h⟩⟩
    rw [exposed, free, exposed_eq_iff.mpr h.1 function (self_mem_subexprs function),
      itemsExposed_eq (itemsExposed_eq_iff.mpr h.2)]
  | lambda params body =>
    rw [subexprs, List.forall_mem_cons, exposed_eq_iff, Uncaptured]
    refine ⟨fun h => h.2, fun h => ⟨?_, h⟩⟩
    rw [exposed, free, exposed_eq_iff.mpr h body (self_mem_subexprs body)]
  | cases subject clauses =>
    rw [subexprs, List.forall_mem_cons, List.forall_mem_append, exposed_eq_iff,
      clausesExposed_eq_iff, Uncaptured, and_comm, and_assoc]
    refine and_congr_right fun hsubject => and_congr_right fun hclauses => ?_
    rw [exposed, free, exposed_eq_iff.mpr hsubject subject (self_mem_subexprs subject),
      List.filter_append, clausesExposed_eq (clausesExposed_eq_iff.mpr hclauses),
      ← List.filter_append, List.filter_eq_self]
    simp

theorem itemsExposed_eq_iff {items : List Expr} :
    (∀ s ∈ itemSubexprs items, s.exposed = s.free) ↔ ItemsUncaptured items := by
  cases items with
  | nil => simp [itemSubexprs, ItemsUncaptured]
  | cons item rest =>
    rw [itemSubexprs, List.forall_mem_append, exposed_eq_iff, itemsExposed_eq_iff, ItemsUncaptured]

theorem clausesExposed_eq_iff {clauses : List Clause} :
    (∀ s ∈ clauseSubexprs clauses, s.exposed = s.free) ↔ ClausesUncaptured clauses := by
  cases clauses with
  | nil => simp [clauseSubexprs, ClausesUncaptured]
  | cons clause rest =>
    obtain ⟨pattern, body⟩ := clause
    rw [clauseSubexprs, List.forall_mem_append, exposed_eq_iff, ClausesUncaptured]
    refine and_congr_right fun _ => ?_
    by_cases h : pattern.catchesAll = true
    · simp [h]
    · simp only [h, Bool.false_eq_true, if_false]
      exact clausesExposed_eq_iff

end

end Expr
end CaseScript
