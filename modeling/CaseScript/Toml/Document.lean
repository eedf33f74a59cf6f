import CaseScript.Toml.Basic

/-!
# Building a document

Headers and assignments act on the entries of the whole document, one after the other. An action
that would change what is already settled is refused.
-/

namespace CaseScript
namespace Toml

/-- One line of a document, or more where a value spans lines. -/
inductive Statement where
  | openTable (path : List String)
  | openElement (path : List String)
  | assign (path : List String) (value : Value)

namespace Entries

/-- Acts on the table under a key, which is made if it is missing. Of an array of tables it is the
last table that is meant. -/
def modifyTable (key : String) (f : Entries → Option Entries) (entries : Entries) :
    Option Entries :=
  match entries.lookup key with
  | none => do return Assoc.insert key (.table .implicit (← f [])) entries
  | some (.table .inline _) => none
  | some (.table origin inner) => do return Assoc.insert key (.table origin (← f inner)) entries
  | some (.tables (last :: before)) => do
    return Assoc.insert key (.tables ((← f last) :: before)) entries
  | some _ => none

/-- Opens a table by a header, which a table may have once, and none if dotted keys made it. -/
def openTable : List String → Entries → Option Entries
  | [], _ => none
  | [key], entries =>
    match entries.lookup key with
    | none => some (Assoc.insert key (.table .header []) entries)
    | some (.table .implicit inner) => some (Assoc.insert key (.table .header inner) entries)
    | some _ => none
  | key :: rest, entries => modifyTable key (openTable rest) entries

/-- Opens a new table at the end of an array of tables. -/
def openElement : List String → Entries → Option Entries
  | [], _ => none
  | [key], entries =>
    match entries.lookup key with
    | none => some (Assoc.insert key (.tables [[]]) entries)
    | some (.tables elements) => some (Assoc.insert key (.tables ([] :: elements)) entries)
    | some _ => none
  | key :: rest, entries => modifyTable key (openElement rest) entries

/-- Sets a new key. A dotted key passes through tables that no header has opened. -/
def assign (value : Value) : List String → Entries → Option Entries
  | [], _ => none
  | [key], entries =>
    match entries.lookup key with
    | none => some (Assoc.insert key value entries)
    | some _ => none
  | key :: rest, entries =>
    match entries.lookup key with
    | none => do return Assoc.insert key (.table .dotted (← assign value rest [])) entries
    | some (.table .implicit inner) | some (.table .dotted inner) => do
      return Assoc.insert key (.table .dotted (← assign value rest inner)) entries
    | some _ => none

/-- Acts on the table at a path. -/
def modifyAt (f : Entries → Option Entries) : List String → Entries → Option Entries
  | [], entries => f entries
  | key :: rest, entries => modifyTable key (modifyAt f rest) entries

/-- Obeys a statement; `header` is the path of the table that is open before it, and the path in the
result is that of the one that is open after it. -/
def obey (header : List String) (entries : Entries) : Statement → Option (List String × Entries)
  | .openTable path => do return (path, ← openTable path entries)
  | .openElement path => do return (path, ← openElement path entries)
  | .assign path value => do return (header, ← modifyAt (assign value path) header entries)

end Entries

end Toml
end CaseScript
