import CaseScript.Doc.Basic
import CaseScript.Pattern.Lowering
import CaseScript.Script.Literal

/-!
# Conditions

The tests that a script makes of a subject, joined by a conjunction that may break after each
operator.
-/

namespace CaseScript
namespace Script

open Doc

/-- The operator of a conjunction and the break after it. -/
def conjunctionMark : Doc := text " &&" ++ space

/-- The test for a list of so many items. -/
def lengthTest (subject : Doc) (count : Int) (atLeast : Bool) : Doc :=
  concat
    [text "Array.isArray(", subject, text ")", conjunctionMark, subject, text ".length",
      text (if atLeast then " >= " else " === "), text (toString count)]

def equalityTest (subject literal : Doc) : Doc := concat [subject, text " === ", literal]

def conjunction (tests : List Doc) : Doc := join conjunctionMark tests

end Script

variable {σ : Type}

/-- A reference into the subject whose own document `subject` gives. -/
def Ref.doc (subject : σ → Doc) : Ref σ → Doc
  | .subject s => subject s
  | item list index => list.doc subject ++ Doc.text ("[" ++ toString index ++ "]")
  | rest list start => list.doc subject ++ Doc.text (".slice(" ++ toString start ++ ")")

def Check.doc (subject : σ → Doc) : Check σ → Doc
  | length ref count atLeast => Script.lengthTest (ref.doc subject) count atLeast
  | equals ref literal => Script.equalityTest (ref.doc subject) (.text literal.written)

end CaseScript
