/-!
# Settings

What a project may settle about the scripts that are generated for it.
-/

namespace CaseScript

structure Settings where
  /-- The number of columns that a layout tries to keep to. -/
  width : Int := 80
  /-- May a pattern bind a name twice, so that the later binding counts? -/
  allowShadowing : Bool := false
  deriving DecidableEq, Repr

end CaseScript
