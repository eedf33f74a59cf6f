import CaseScript.Settings.Basic
import CaseScript.Toml.Reader

/-!
# Settings from a settings file

The table `format` settles the layout and the table `emit` the meaning of patterns. Both may be
missing, and so may their entries.
-/

namespace CaseScript
namespace Settings

/-- The name that every settings file has. -/
def fileName : String := "jsmatch.toml"

/-- What a new settings file holds: the default of every entry. -/
def defaultText : String :=
  "[format]\nwidth = 80\n\n[emit]\nallow_shadowed_bindings = false\n"

inductive Fault where
  | notUtf8
  | notToml
  | badWidth
  /-- The value of `format` or `emit` is not a table. -/
  | notTable (value : Toml.Value)
  /-- A numeral has `count` digits, which are too many. -/
  | oversized (count : Nat)

/-- What is wrong with the settings file that `path` names. -/
def Fault.message (path : String) : Fault → String
  | notUtf8 => path ++ ": not a text in UTF-8"
  | notToml => path ++ ": not a TOML document"
  | badWidth => path ++ ": format.width must be a positive integer"
  | notTable value => "'" ++ value.kind ++ "' object has no attribute 'get'"
  | oversized count => oversizedMessage count

/-- The entries of a section, if the document has it. -/
def section? (name : String) (document : Toml.Entries) : Except Fault (Option Toml.Entries) :=
  match document.lookup name with
  | none => .ok none
  | some value =>
    match value.entries? with
    | some entries => .ok (some entries)
    | none => .error (.notTable value)

/-- A width has to be a positive integer. -/
def widthIn (entries : Toml.Entries) : Except Fault Int :=
  match entries.lookup "width" with
  | none => .ok ({} : Settings).width
  | some value =>
    match value.int? with
    | some n => if 0 < n then .ok n else .error .badWidth
    | none => .error .badWidth

def shadowingIn (entries : Toml.Entries) : Bool :=
  match entries.lookup "allow_shadowed_bindings" with
  | none => ({} : Settings).allowShadowing
  | some value => value.isTruthy

/-- The settings of a document; the faults of `format` come before those of `emit`. -/
def ofToml (document : Toml.Entries) : Except Fault Settings := do
  let defaults : Settings := {}
  let width ← match ← section? "format" document with
    | none => pure defaults.width
    | some entries => widthIn entries
  let allowShadowing ← match ← section? "emit" document with
    | none => pure defaults.allowShadowing
    | some entries => pure (shadowingIn entries)
  return { width, allowShadowing }

/-- The settings in the bytes of a file. -/
def ofBytes (bytes : ByteArray) : Except Fault Settings :=
  match String.fromUTF8? bytes with
  | none => .error .notUtf8
  | some text =>
    match Toml.parse text with
    | .error .malformed => .error .notToml
    | .error (.oversized count) => .error (.oversized count)
    | .ok document => ofToml document

/-- The default settings, as `defaultText` writes them down. -/
example : ((Toml.parse defaultText).toOption.bind fun d => (ofToml d).toOption) = some {} := by
  decide +kernel

end Settings
end CaseScript
