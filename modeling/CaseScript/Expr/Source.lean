import CaseScript.Expr.OfJson
import CaseScript.Json.Reader

/-!
# Expressions from source text
-/

namespace CaseScript

/-- What keeps a source text from being an expression. -/
inductive SourceFault where
  | notJson (text : String) (fault : Json.SyntaxFault)
  | badShape (faults : List ShapeFault)
  /-- A numeral has `count` digits, which are too many. -/
  | oversized (count : Nat)

/-- What there is to report. Too long a numeral is not reported. -/
def SourceFault.diagnostics : SourceFault → List Diagnostic
  | notJson text fault => [fault.diagnostic text]
  | badShape faults => faults.map ShapeFault.diagnostic
  | oversized _ => []

/-- The expression that a whole JSON value describes. -/
def Expr.decode (json : Json) : Decoded Expr := ofJson (.root "expr") json

/-- The pattern that a whole JSON value describes. -/
def Pattern.decode (json : Json) : Decoded Pattern := ofJson (.root "pattern") json

def Expr.ofSource (text : String) : Except SourceFault Expr :=
  match Json.parse text with
  | .error (.malformed fault) => .error (.notJson text fault)
  | .error (.oversized count) => .error (.oversized count)
  | .ok json => (decode json).mapError .badShape

end CaseScript
