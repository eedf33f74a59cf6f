import CaseScript.Script.Format
import CaseScript.Script.OfExpr
import CaseScript.Settings.Basic

/-!
# Emitters

An emitter turns trees into the text of scripts and keeps the warnings of the tree it saw last.
-/

namespace CaseScript

/-- The script for a whole tree. -/
def Expr.emission (settings : Settings) (e : Expr) : Script.Emission Script.Term :=
  Script.ofExpr settings.allowShadowing (.root "expr") e

/-- The text of the script for a tree whose literals can be written down. No tree that is read from
a source has others. -/
def Expr.script (settings : Settings) (e : Expr) : Except NamingFault String :=
  (e.emission settings).result.map (·.render settings.width)

structure Emitter where
  settings : Settings := {}
  warnings : List Diagnostic := []

namespace Emitter

/-- The text for a tree, and the emitter with the warnings about this tree instead of older ones. -/
def emit (emitter : Emitter) (e : Expr) : Except NamingFault String × Emitter :=
  (e.script emitter.settings,
    { emitter with warnings := (e.emission emitter.settings).warnings })

end Emitter
end CaseScript
