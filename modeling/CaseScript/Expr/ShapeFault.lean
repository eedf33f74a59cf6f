import CaseScript.Diagnostic.Basic
import CaseScript.Json.Basic

/-!
# Faults of shape

A fault of shape is a reason why a JSON value is not the node that its place asks for.
-/

namespace CaseScript

inductive ShapeFault.Cause where
  | notObject (kind : Json.Kind)
  | missingTag
  | missingField (name : String)
  | wrongKind (name : String) (kind : Json.Kind)
  | entryNotString (name : String)
  | badOperator
  | clauseNotObject
  | unknownExpr (tag : Text)
  | unknownPattern (tag : Text)
  deriving DecidableEq

structure ShapeFault where
  trail : Trail
  cause : ShapeFault.Cause
  deriving DecidableEq

namespace ShapeFault.Cause

/-- An unknown tag has a code of its own. -/
def code : Cause → String
  | unknownExpr _ | unknownPattern _ => "E002"
  | _ => "E003"

def message : Cause → String
  | notObject kind => "expected an object, got " ++ kind.found
  | missingTag => "missing 'type' tag"
  | missingField name => "missing field '" ++ name ++ "'"
  | wrongKind name kind => "field '" ++ name ++ "' must be " ++ kind.wanted
  | entryNotString name => "'" ++ name ++ "' entries must be strings"
  | badOperator => "field 'op' must be an operator without whitespace"
  | clauseNotObject => "a clause must be an object"
  | unknownExpr tag => "unknown expression type '" ++ tag.shown ++ "'"
  | unknownPattern tag => "unknown pattern type '" ++ tag.shown ++ "'"

end ShapeFault.Cause

def ShapeFault.diagnostic (fault : ShapeFault) : Diagnostic :=
  .errorAt fault.cause.code fault.cause.message fault.trail

end CaseScript
