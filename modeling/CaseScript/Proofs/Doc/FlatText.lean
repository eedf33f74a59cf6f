import CaseScript.Doc.Basic

/-!
# The flat text of a document

What a document says when no group is broken and no line is indented. Layouts of a document differ
from it in blanks, newlines and the marks that a broken group adds.
-/

namespace CaseScript
namespace Doc

def flatText : Doc → String
  | empty => ""
  | text s => s
  | line => "\n"
  | brk flat _ => flat
  | append first second => first.flatText ++ second.flatText
  | nest _ doc | nestIfBroken _ doc | group doc => doc.flatText

theorem flatText_join (separator : Doc) (docs : List Doc) :
    (join separator docs).flatText = separator.flatText.intercalate (docs.map flatText) := by
  induction docs with
  | nil => simp [flatText]
  | cons doc rest ih =>
    cases rest with
    | nil => simp [join, flatText]
    | cons next rest =>
      rw [List.map_cons, String.intercalate_cons_of_ne_nil (by simp), ← ih]
      simp only [join, List.intersperse_cons_cons, concat_cons, flatText, String.append_assoc]

end Doc
end CaseScript
