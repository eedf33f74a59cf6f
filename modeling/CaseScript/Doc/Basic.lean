/-!
# Documents

A document describes a text together with the places where it may be broken into lines. Each group
is laid out flat or broken as a whole; only the layout decides which.
-/

namespace CaseScript

inductive Doc where
  | empty
  /-- A text without newlines. -/
  | text (s : String)
  /-- A newline in every layout. -/
  | line
  /-- `flat` in a flat group; `broken` and a newline in a broken one. -/
  | brk (flat broken : String)
  | append (first second : Doc)
  /-- Indents the lines that start inside. -/
  | nest (indent : Int) (doc : Doc)
  /-- Indents likewise, but not in a flat group: lines that start there keep the outer
  indentation. -/
  | nestIfBroken (indent : Int) (doc : Doc)
  | group (doc : Doc)
  deriving Inhabited

namespace Doc

instance : Append Doc := ⟨append⟩

/-- A break that leaves no trace in a flat group. -/
def softBreak : Doc := brk "" ""

/-- A break that is a space in a flat group. -/
def space : Doc := brk " " ""

def concat (parts : List Doc) : Doc := parts.foldr (· ++ ·) empty

/-- The documents with `separator` between neighbours. -/
def join (separator : Doc) (docs : List Doc) : Doc := concat (docs.intersperse separator)

/-- The indentation of nested lines where nothing else is said. -/
def indentation : Int := 2

/-- A document for a text that is to stand on one line, refused if it does not. -/
def ofText? (s : String) : Option Doc := if '\n' ∈ s.toList then none else some (text s)

/-- The number of constructors, which bounds the steps of a layout. -/
def weight : Doc → Nat
  | empty | text _ | line | brk _ _ => 1
  | append first second => first.weight + second.weight + 1
  | nest _ doc | nestIfBroken _ doc | group doc => doc.weight + 1

@[simp] theorem append_eq (first second : Doc) : first ++ second = append first second := rfl

@[simp] theorem concat_nil : concat [] = empty := rfl

@[simp] theorem concat_cons (doc : Doc) (docs : List Doc) :
    concat (doc :: docs) = append doc (concat docs) := rfl

@[simp] theorem join_nil (separator : Doc) : join separator [] = empty := rfl

theorem ofText?_eq_none_iff {s : String} : ofText? s = none ↔ '\n' ∈ s.toList := by
  simp [ofText?]

end Doc
end CaseScript
