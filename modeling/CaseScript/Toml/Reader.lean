import CaseScript.Toml.Document
import CaseScript.Toml.Number
import CaseScript.Toml.Text

/-!
# Reading TOML

A text is read statement by statement, and each of them adds to the document. The argument `fuel`
bounds the steps of the readers that call each other; each step consumes a character, so the length
of the text suffices.
-/

namespace CaseScript
namespace Toml

/-- The text without the comment in front, if one stands there. -/
def skipComment? : List Char → Option (List Char)
  | '#' :: rest =>
    if (rest.takeWhile (· != '\n')).any isIllegal then none else some (rest.dropWhile (· != '\n'))
  | s => some s

/-- The text without blanks, newlines and comments in front. -/
def skipLines? (fuel : Nat) (s : List Char) : Option (List Char) :=
  match fuel with
  | 0 => none
  | fuel + 1 => do
    let bare := s.dropWhile fun c => isSpace c || c == '\n'
    match bare with
    | '#' :: _ => skipLines? fuel (← skipComment? bare)
    | _ => return bare

/-- A key, an equals sign and the blanks after it. -/
def assigned? (fuel : Nat) (s : List Char) : Option (List String × List Char) := do
  let (path, rest) ← key? fuel s
  match rest with
  | '=' :: rest => return (path, rest.dropWhile isSpace)
  | _ => none

mutual

def value (fuel : Nat) (s : List Char) : Except ReadFault (Value × List Char) :=
  match fuel with
  | 0 => .error .malformed
  | fuel + 1 =>
    match s with
    | '"' :: _ | '\'' :: _ => do
      let (t, after) ← orMalformed (string? s)
      return (.string t, after)
    | 't' :: 'r' :: 'u' :: 'e' :: rest => .ok (.bool true, rest)
    | 'f' :: 'a' :: 'l' :: 's' :: 'e' :: rest => .ok (.bool false, rest)
    | '[' :: rest => do
      let (items, after) ← items fuel rest
      return (.array items, after)
    | '\x7b' :: rest => do
      let bare := rest.dropWhile isSpace
      match bare with
      | '\x7d' :: after => return (.table .inline [], after)
      | _ =>
        let (entries, after) ← inlineEntries fuel [] bare
        return (.table .inline entries, after)
    | _ => scalar s

/-- The items of an array, up to its closing bracket. A comma may follow the last one. -/
def items (fuel : Nat) (s : List Char) : Except ReadFault (List Value × List Char) :=
  match fuel with
  | 0 => .error .malformed
  | fuel + 1 => do
    let bare ← orMalformed (skipLines? (fuel + 1) s)
    match bare with
    | ']' :: after => return ([], after)
    | _ =>
      let (item, rest) ← value fuel bare
      match ← orMalformed (skipLines? (fuel + 1) rest) with
      | ']' :: after => return ([item], after)
      | ',' :: rest =>
        let (items, after) ← items fuel rest
        return (item :: items, after)
      | _ => .error .malformed

/-- The entries of an inline table, up to its closing brace; those before are given. No comma may
follow the last one. -/
def inlineEntries (fuel : Nat) (entries : Entries) (s : List Char) :
    Except ReadFault (Entries × List Char) :=
  match fuel with
  | 0 => .error .malformed
  | fuel + 1 => do
    let (path, rest) ← orMalformed (assigned? (fuel + 1) s)
    let (value, rest) ← value fuel rest
    let entries ← orMalformed (Entries.assign value path entries)
    match rest.dropWhile isSpace with
    | '\x7d' :: after => return (entries, after)
    | ',' :: rest => inlineEntries fuel entries (rest.dropWhile isSpace)
    | _ => .error .malformed

end

/-- The statement at the front of a line, which is neither empty nor a comment. -/
def statement (fuel : Nat) (s : List Char) : Except ReadFault (Statement × List Char) :=
  match s with
  | '[' :: '[' :: rest => do
    let (path, rest) ← orMalformed (key? fuel (rest.dropWhile isSpace))
    match rest with
    | ']' :: ']' :: after => return (.openElement path, after)
    | _ => .error .malformed
  | '[' :: rest => do
    let (path, rest) ← orMalformed (key? fuel (rest.dropWhile isSpace))
    match rest with
    | ']' :: after => return (.openTable path, after)
    | _ => .error .malformed
  | _ => do
    let (path, rest) ← orMalformed (assigned? fuel s)
    let (value, after) ← value fuel rest
    return (.assign path value, after)

/-- Reads the statements of a text and obeys each of them at once; `header` is the path of the table
that is open. Only blanks and a comment may stand between a statement and the end of its line. -/
def obeyAll (fuel : Nat) (header : List String) (entries : Entries) (s : List Char) :
    Except ReadFault Entries :=
  match fuel with
  | 0 => .error .malformed
  | fuel + 1 =>
    match s.dropWhile isSpace with
    | [] => .ok entries
    | '\n' :: rest => obeyAll fuel header entries rest
    | '#' :: rest => do
      obeyAll fuel header entries (← orMalformed (skipComment? ('#' :: rest)))
    | c :: rest => do
      let (statement, rest) ← statement (fuel + 1) (c :: rest)
      let (header, entries) ← orMalformed (Entries.obey header entries statement)
      match ← orMalformed (skipComment? (rest.dropWhile isSpace)) with
      | [] => return entries
      | '\n' :: rest => obeyAll fuel header entries rest
      | _ => .error .malformed

/-- Line ends of two characters count as newlines everywhere. -/
def unifyLineEnds : List Char → List Char
  | '\r' :: '\n' :: rest => '\n' :: unifyLineEnds rest
  | c :: rest => c :: unifyLineEnds rest
  | [] => []

/-- The entries of the document that a text writes. -/
def parse (text : String) : Except ReadFault Entries :=
  let chars := unifyLineEnds text.toList
  obeyAll (2 * chars.length + 2) [] [] chars

end Toml
end CaseScript
