import CaseScript.Proofs.Js.Semantics

/-!
# Scopes in JavaScript programs

The identifiers that a program declares anywhere, those that it declares together in one scope, and
the occurrences of identifiers that nothing around them declares, all from left to right. A
parameter is in scope in the body of its arrow, and a `let` in the whole block that it stands in:
also before it, and in its own initialiser.
-/

namespace CaseScript
namespace Js

mutual

def Expression.free : Expression → List String
  | .literal _ => []
  | .name identifier => [identifier]
  | .word _ => []
  | .array items => Expression.freeAll items
  | .operation _ left right => left.free ++ right.free
  | .arrow params body => body.free.filter (· ∉ params)
  | .bareArrow param body => body.free.filter (· ∉ [param])
  | .function body => (Statement.freeAll body).filter (· ∉ declared body)
  | .call callee args | .construct callee args => callee.free ++ Expression.freeAll args
  | .member object _ | .item object _ => object.free
  | .parens inner => inner.free

def Expression.freeAll : List Expression → List String
  | [] => []
  | e :: rest => e.free ++ Expression.freeAll rest

def Statement.free : Statement → List String
  | .letBe _ value | .giveBack value => value.free
  | .ifThen condition body =>
    condition.free ++ (Statement.freeAll body).filter (· ∉ declared body)
  | .throw error => error.free

def Statement.freeAll : List Statement → List String
  | [] => []
  | s :: rest => s.free ++ Statement.freeAll rest

end

mutual

/-- All identifiers that are declared somewhere in an expression. -/
def Expression.binders : Expression → List String
  | .literal _ | .name _ | .word _ => []
  | .array items => Expression.bindersAll items
  | .operation _ left right => left.binders ++ right.binders
  | .arrow params body => params ++ body.binders
  | .bareArrow param body => param :: body.binders
  | .function body => Statement.bindersAll body
  | .call callee args | .construct callee args => callee.binders ++ Expression.bindersAll args
  | .member object _ | .item object _ => object.binders
  | .parens inner => inner.binders

def Expression.bindersAll : List Expression → List String
  | [] => []
  | e :: rest => e.binders ++ Expression.bindersAll rest

def Statement.binders : Statement → List String
  | .letBe identifier value => identifier :: (value.later ++ value.binders)
  | .giveBack value => value.binders
  | .ifThen condition body => condition.binders ++ Statement.bindersAll body
  | .throw error => error.binders

def Statement.bindersAll : List Statement → List String
  | [] => []
  | s :: rest => s.binders ++ Statement.bindersAll rest

end

mutual

/-- The scopes of an expression, each as the identifiers that are declared in it: by the `let`s of
one block, or as the parameters of one arrow. A block inside another one is a scope of its own. -/
def Expression.scopes : Expression → List (List String)
  | .literal _ | .name _ | .word _ => []
  | .array items => Expression.scopesAll items
  | .operation _ left right => left.scopes ++ right.scopes
  | .arrow params body => params :: body.scopes
  | .bareArrow param body => [param] :: body.scopes
  | .function body => declared body :: Statement.scopesAll body
  | .call callee args | .construct callee args => callee.scopes ++ Expression.scopesAll args
  | .member object _ | .item object _ => object.scopes
  | .parens inner => inner.scopes

def Expression.scopesAll : List Expression → List (List String)
  | [] => []
  | e :: rest => e.scopes ++ Expression.scopesAll rest

def Statement.scopes : Statement → List (List String)
  | .letBe _ value | .giveBack value => value.scopes
  | .ifThen condition body => condition.scopes ++ declared body :: Statement.scopesAll body
  | .throw error => error.scopes

def Statement.scopesAll : List Statement → List (List String)
  | [] => []
  | s :: rest => s.scopes ++ Statement.scopesAll rest

end

/-- The parameters that are still in scope behind an expression, where an operator could follow. -/
def Expression.trailing : Expression → List String
  | .arrow params body => params ++ body.trailing
  | .bareArrow param body => param :: body.trailing
  | .operation _ _ right => right.trailing
  | _ => []

theorem free_conjunction (tests : List Expression) :
    (conjunction tests).free = tests.flatMap Expression.free :=
  collect_conjunction Expression.free rfl (fun _ _ => rfl) tests

/-- Parentheses around a callee change nothing about its scope. -/
theorem free_callee (inParens : Bool) (callee : Expression) :
    (if inParens then Expression.parens callee else callee).free = callee.free := by
  cases inParens <;> rfl

theorem binders_callee (inParens : Bool) (callee : Expression) :
    (if inParens then Expression.parens callee else callee).binders = callee.binders := by
  cases inParens <;> rfl

theorem scopes_callee (inParens : Bool) (callee : Expression) :
    (if inParens then Expression.parens callee else callee).scopes = callee.scopes := by
  cases inParens <;> rfl

end Js
end CaseScript
