import CaseScript.Proofs.Doc.Arrangement

/-!
# Variants of a document

Every way to write a document, whatever its groups are decided to be and however its lines are
indented. Each layout is one of them.
-/

namespace CaseScript
namespace Doc

def Allows : Doc → List Char → Prop
  | empty, s => s = []
  | text t, s => s = t.toList
  | line, s => ∃ indent, s = newline indent
  | brk flat broken, s => s = flat.toList ∨ ∃ indent, s = broken.toList ++ newline indent
  | append first second, s =>
    ∃ front back, first.Allows front ∧ second.Allows back ∧ s = front ++ back
  | nest _ doc, s | nestIfBroken _ doc, s | group doc, s => doc.Allows s

theorem allows_arrange (width indent : Int) (m : Mode) (following : Following) (column : Int)
    (doc : Doc) : doc.Allows (doc.arrange width indent m following column).1 := by
  induction doc generalizing indent m following column with
  | empty => rfl
  | text s => rfl
  | line => exact ⟨indent, rfl⟩
  | brk flat broken =>
    cases m with
    | flat => exact .inl rfl
    | broken => exact .inr ⟨indent, rfl⟩
  | append first second ihfirst ihsecond => exact ⟨_, _, ihfirst .., ihsecond .., rfl⟩
  | nest n doc ih => exact ih ..
  | nestIfBroken n doc ih =>
    cases m with
    | flat => exact ih ..
    | broken => exact ih ..
  | group doc ih =>
    cases m with
    | flat => exact ih ..
    | broken =>
      rw [arrange]
      split
      · exact ih ..
      · exact ih ..

theorem allows_render (width : Int) (doc : Doc) : doc.Allows (doc.render width).toList := by
  rw [render_eq_arrange, String.toList_ofList]
  exact allows_arrange ..

end Doc
end CaseScript
