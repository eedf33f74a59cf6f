import CaseScript.Text.Hex

/-!
# Strings and keys of TOML
-/

namespace CaseScript
namespace Toml

def isSpace (c : Char) : Bool := c == ' ' || c == '\t'

/-- Control characters other than the tab, which no text may hold. -/
def isIllegal (c : Char) : Bool := (c.toNat < 0x20 && c != '\t') || c.toNat == 0x7F

/-- A string between apostrophes, on one line and without escapes. -/
def literal? : List Char → Option (List Char × List Char)
  | [] => none
  | c :: rest =>
    if c = '\'' then some ([], rest)
    else if isIllegal c then none
    else (literal? rest).map fun (cs, after) => (c :: cs, after)

/-- A string up to three apostrophes. -/
def literalLines? : List Char → Option (List Char × List Char)
  | [] => none
  | '\'' :: '\'' :: '\'' :: rest => some ([], rest)
  | c :: rest =>
    if isIllegal c && c != '\n' then none
    else (literalLines? rest).map fun (cs, after) => (c :: cs, after)

/-- The character whose number the hexadecimal digits write; no surrogates. -/
def hexChar? (digits : List Char) : Option Char := do
  let values ← digits.mapM Text.hexDigit?
  let n := values.foldl (fun n d => 16 * n + d) 0
  if h : n.isValidChar then some (Char.ofNatAux n h) else none

def escaped? : Char → Option Char
  | 'b' => some '\x08'
  | 't' => some '\t'
  | 'n' => some '\n'
  | 'f' => some '\x0c'
  | 'r' => some '\r'
  | '"' => some '"'
  | '\\' => some '\\'
  | _ => none

/-- What a backslash at the end of a line leaves out of the text. -/
inductive Gap where
  | none
  /-- Blanks up to the end of the line, where nothing else may stand. -/
  | toLineEnd
  /-- Blanks and newlines up to the next character. -/
  | toText
  deriving DecidableEq

/-- A string between quotes: one quote at each end, or three if it may span lines. -/
def basic? (spansLines : Bool) (gap : Gap) : List Char → Option (List Char × List Char)
  | [] => .none
  | c :: rest =>
    if gap = .toLineEnd then
      if isSpace c then basic? spansLines .toLineEnd rest
      else if c = '\n' then basic? spansLines .toText rest
      else .none
    else if gap = .toText ∧ (isSpace c ∨ c = '\n') then basic? spansLines .toText rest
    else if c = '"' then
      match spansLines, rest with
      | false, _ => some ([], rest)
      | true, '"' :: '"' :: after => some ([], after)
      | true, _ => (basic? spansLines .none rest).map fun (cs, after) => ('"' :: cs, after)
    else if c = '\\' then
      match rest with
      | [] => .none
      | 'u' :: a :: b :: c :: d :: rest => do
        let char ← hexChar? [a, b, c, d]
        let (cs, after) ← basic? spansLines .none rest
        return (char :: cs, after)
      | 'U' :: a :: b :: c :: d :: e :: f :: g :: h :: rest => do
        let char ← hexChar? [a, b, c, d, e, f, g, h]
        let (cs, after) ← basic? spansLines .none rest
        return (char :: cs, after)
      | e :: rest =>
        if spansLines ∧ isSpace e then basic? spansLines .toLineEnd rest
        else if spansLines ∧ e = '\n' then basic? spansLines .toText rest
        else do
          let char ← escaped? e
          let (cs, after) ← basic? spansLines .none rest
          return (char :: cs, after)
    else if isIllegal c ∧ ¬(spansLines ∧ c = '\n') then .none
    else (basic? spansLines .none rest).map fun (cs, after) => (c :: cs, after)

/-- A newline right after the opening quotes does not count. -/
def dropNewline : List Char → List Char
  | '\n' :: rest => rest
  | s => s

/-- One or two quotes before the closing three belong to the text. -/
def withExtraQuotes (quote : Char) (cs : List Char) (s : List Char) : List Char × List Char :=
  match s with
  | a :: b :: rest =>
    if a = quote then
      if b = quote then (cs ++ [quote, quote], rest) else (cs ++ [quote], b :: rest)
    else (cs, s)
  | [a] => if a = quote then (cs ++ [quote], []) else (cs, s)
  | [] => (cs, s)

/-- A string of any of the four kinds. -/
def string? : List Char → Option (String × List Char)
  | '"' :: '"' :: '"' :: rest => do
    let (cs, after) ← basic? true .none (dropNewline rest)
    let (cs, after) := withExtraQuotes '"' cs after
    return (String.ofList cs, after)
  | '\'' :: '\'' :: '\'' :: rest => do
    let (cs, after) ← literalLines? (dropNewline rest)
    let (cs, after) := withExtraQuotes '\'' cs after
    return (String.ofList cs, after)
  | '"' :: rest => (basic? false .none rest).map fun (cs, after) => (String.ofList cs, after)
  | '\'' :: rest => (literal? rest).map fun (cs, after) => (String.ofList cs, after)
  | _ => none

def isBareKeyChar (c : Char) : Bool := c.isAlphanum || c == '-' || c == '_'

/-- One part of a key: a bare word or a string on one line. -/
def keyPart? (s : List Char) : Option (String × List Char) :=
  match s with
  | '"' :: rest => (basic? false .none rest).map fun (cs, after) => (String.ofList cs, after)
  | '\'' :: rest => (literal? rest).map fun (cs, after) => (String.ofList cs, after)
  | _ =>
    if (s.takeWhile isBareKeyChar).isEmpty then none
    else some (String.ofList (s.takeWhile isBareKeyChar), s.dropWhile isBareKeyChar)

/-- The parts of a key, with periods between them. `fuel` bounds their number. -/
def key? (fuel : Nat) (s : List Char) : Option (List String × List Char) :=
  match fuel with
  | 0 => none
  | fuel + 1 => do
    let (part, rest) ← keyPart? s
    match rest.dropWhile isSpace with
    | '.' :: more =>
      let (parts, after) ← key? fuel (more.dropWhile isSpace)
      return (part :: parts, after)
    | after => return ([part], after)

end Toml
end CaseScript
