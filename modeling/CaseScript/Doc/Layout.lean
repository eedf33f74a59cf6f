import CaseScript.Doc.Basic

/-!
# Layout of documents

The layout works through a list of pending documents, each with the indentation and the mode of its
surroundings. A group met in broken mode becomes flat exactly when its flat form, together with
whatever follows it up to the next newline, fits into the rest of the line.
-/

namespace CaseScript
namespace Doc

inductive Mode where
  | flat
  | broken
  deriving DecidableEq, Repr

/-- A document that is still to be laid out. -/
structure Pending where
  indent : Int
  mode : Mode
  doc : Doc

/-- The work left in a list of pending documents. -/
def work : List Pending → Nat
  | [] => 0
  | p :: rest => p.doc.weight + work rest

/-- Does the text up to the next newline fit into `room` columns? -/
def fits (room : Int) : List Pending → Bool
  | [] => decide (0 ≤ room)
  | ⟨_, _, .empty⟩ :: rest => fits room rest
  | ⟨_, _, .text s⟩ :: rest => decide (0 ≤ room) && fits (room - s.length) rest
  | ⟨_, _, .line⟩ :: _ => decide (0 ≤ room)
  | ⟨_, .flat, .brk flat _⟩ :: rest => decide (0 ≤ room) && fits (room - flat.length) rest
  | ⟨_, .broken, .brk _ _⟩ :: _ => decide (0 ≤ room)
  | ⟨i, m, .append first second⟩ :: rest => fits room (⟨i, m, first⟩ :: ⟨i, m, second⟩ :: rest)
  | ⟨i, m, .nest _ doc⟩ :: rest => fits room (⟨i, m, doc⟩ :: rest)
  | ⟨i, m, .nestIfBroken _ doc⟩ :: rest => fits room (⟨i, m, doc⟩ :: rest)
  | ⟨i, m, .group doc⟩ :: rest => fits room (⟨i, m, doc⟩ :: rest)
termination_by pending => work pending
decreasing_by all_goals simp only [work, weight]; omega

/-- A newline and the indentation after it; a negative one prints no spaces. -/
def newline (indent : Int) : List Char := '\n' :: List.replicate indent.toNat ' '

/-- The text of the pending documents, of which the first starts in `column`. -/
def layout (width column : Int) : List Pending → List Char
  | [] => []
  | ⟨_, _, .empty⟩ :: rest => layout width column rest
  | ⟨_, _, .text s⟩ :: rest => s.toList ++ layout width (column + s.length) rest
  | ⟨i, _, .line⟩ :: rest => newline i ++ layout width i rest
  | ⟨_, .flat, .brk flat _⟩ :: rest => flat.toList ++ layout width (column + flat.length) rest
  | ⟨i, .broken, .brk _ broken⟩ :: rest => broken.toList ++ newline i ++ layout width i rest
  | ⟨i, m, .append first second⟩ :: rest =>
    layout width column (⟨i, m, first⟩ :: ⟨i, m, second⟩ :: rest)
  | ⟨i, m, .nest n doc⟩ :: rest => layout width column (⟨i + n, m, doc⟩ :: rest)
  | ⟨i, .flat, .nestIfBroken _ doc⟩ :: rest => layout width column (⟨i, .flat, doc⟩ :: rest)
  | ⟨i, .broken, .nestIfBroken n doc⟩ :: rest =>
    layout width column (⟨i + n, .broken, doc⟩ :: rest)
  | ⟨i, .flat, .group doc⟩ :: rest => layout width column (⟨i, .flat, doc⟩ :: rest)
  | ⟨i, .broken, .group doc⟩ :: rest =>
    if fits (width - column) (⟨i, .flat, doc⟩ :: rest) then
      layout width column (⟨i, .flat, doc⟩ :: rest)
    else layout width column (⟨i, .broken, doc⟩ :: rest)
termination_by pending => work pending
decreasing_by all_goals simp only [work, weight]; omega

/-- The text of a document laid out to `width` columns. -/
def render (width : Int) (doc : Doc) : String :=
  String.ofList (layout width 0 [⟨0, .broken, doc⟩])

@[simp] theorem layout_nil (width column : Int) : layout width column [] = [] := by
  rw [layout]

@[simp] theorem layout_text (width column i : Int) (m : Mode) (s : String) (rest : List Pending) :
    layout width column (⟨i, m, .text s⟩ :: rest) =
      s.toList ++ layout width (column + s.length) rest := by
  rw [layout]

end Doc
end CaseScript
