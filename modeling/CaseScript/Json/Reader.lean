import CaseScript.Assoc
import CaseScript.Diagnostic.Basic
import CaseScript.Json.Lexeme

/-!
# Reading JSON

The reader steps through the lexemes of a text. It holds the containers that are still open,
innermost first, and what the next lexeme has to be. A numeral with too many digits counts only
where a value is due; it ends the reading just as a fault of syntax does.
-/

namespace CaseScript
namespace Json

/-- Why a text is not read. -/
inductive ReadFault where
  | malformed (fault : SyntaxFault)
  /-- A numeral has `count` digits, which are too many. -/
  | oversized (count : Nat)
  deriving DecidableEq, Repr

/-- An open container that waits for a value. -/
inductive Frame where
  /-- The items before the value, last first. -/
  | array (items : List Json)
  /-- The fields before the value, and its name; a later field of one name replaces an earlier
  one. -/
  | object (fields : List (Text × Json)) (name : Text)

/-- What has to come next. -/
inductive Place where
  /-- A value, or the end of the array if it is still empty. -/
  | value (mayClose : Bool)
  /-- A name, or the end of the object if it is still empty. -/
  | name (fields : List (Text × Json)) (mayClose : Bool)
  | colon (fields : List (Text × Json)) (name : Text)
  /-- Whatever may follow a complete value. -/
  | after (value : Json)

structure Reader where
  frames : List Frame
  place : Place

namespace Reader

/-- Ends the reading with a fault of syntax at `s`. -/
def refuse {α : Type} (cause : SyntaxFault.Cause) (s : List Char) : Except ReadFault α :=
  .error (.malformed ⟨cause, s⟩)

/-- One lexeme read; `s` is the text from that lexeme on. -/
def step (s : List Char) (lexeme : Lexeme) : Reader → Except ReadFault Reader
  | ⟨frames, .value mayClose⟩ =>
    match lexeme with
    | .atom value => .ok ⟨frames, .after value⟩
    | .oversized count => .error (.oversized count)
    | .string t => .ok ⟨frames, .after (.string t)⟩
    | .openArray => .ok ⟨.array [] :: frames, .value true⟩
    | .openObject => .ok ⟨frames, .name [] true⟩
    | .closeArray =>
      match mayClose, frames with
      | true, .array items :: outer => .ok ⟨outer, .after (.array items.reverse)⟩
      | _, _ => refuse .noValue s
    | .faulty fault => .error (.malformed fault)
    | _ => refuse .noValue s
  | ⟨frames, .name fields mayClose⟩ =>
    match lexeme with
    | .string t => .ok ⟨frames, .colon fields t⟩
    | .closeObject =>
      if mayClose then .ok ⟨frames, .after (.object fields)⟩ else refuse .noName s
    | .faulty fault => .error (.malformed fault)
    | _ => refuse .noName s
  | ⟨frames, .colon fields name⟩ =>
    match lexeme with
    | .colon => .ok ⟨.object fields name :: frames, .value false⟩
    | _ => refuse .noColon s
  | ⟨[], .after _⟩ => refuse .extraData s
  | ⟨.array items :: outer, .after value⟩ =>
    match lexeme with
    | .comma => .ok ⟨.array (value :: items) :: outer, .value false⟩
    | .closeArray => .ok ⟨outer, .after (.array (value :: items).reverse)⟩
    | _ => refuse .noComma s
  | ⟨.object fields name :: outer, .after value⟩ =>
    match lexeme with
    | .comma => .ok ⟨outer, .name (Assoc.insert name value fields) false⟩
    | .closeObject => .ok ⟨outer, .after (.object (Assoc.insert name value fields))⟩
    | _ => refuse .noComma s

/-- The value at the end of the text, or the fault of a text that ends too early. -/
def finish : Reader → Except ReadFault Json
  | ⟨[], .after value⟩ => .ok value
  | reader =>
    match reader.step [] .finish with
    | .error fault => .error fault
    | .ok _ => refuse .noValue []

def run (reader : Reader) (s : List Char) : Except ReadFault Json :=
  match _h : s.dropWhile isSpace with
  | [] => reader.finish
  | c :: rest =>
    match reader.step (c :: rest) (next (c :: rest)).1 with
    | .error fault => .error fault
    | .ok reader => reader.run (next (c :: rest)).2
termination_by s.length
decreasing_by
  have hle := (List.dropWhile_sublist isSpace (l := s)).length_le
  rw [_h] at hle
  exact Nat.lt_of_lt_of_le (length_next (by simp)) hle

end Reader

/-- The value that a text denotes. -/
def parse (s : String) : Except ReadFault Json :=
  match s.toList with
  | '\uFEFF' :: rest => Reader.refuse .byteOrderMark ('\uFEFF' :: rest)
  | chars => Reader.run ⟨[], .value false⟩ chars

namespace SyntaxFault

def Cause.message : Cause → String
  | byteOrderMark => "Unexpected UTF-8 BOM (decode using utf-8-sig)"
  | noValue => "Expecting value"
  | noName => "Expecting property name enclosed in double quotes"
  | noColon => "Expecting ':' delimiter"
  | noComma => "Expecting ',' delimiter"
  | extraData => "Extra data"
  | openString => "Unterminated string starting at"
  | controlCharacter => "Invalid control character at"
  | badEscape => "Invalid \\escape"
  | badUnicodeEscape => "Invalid \\uXXXX escape"

/-- The part of the text before the place of the fault. -/
def before (fault : SyntaxFault) (text : String) : List Char :=
  text.toList.take (text.toList.length - fault.rest.length)

/-- Lines are numbered from one. -/
def line (fault : SyntaxFault) (text : String) : Nat := (fault.before text).count '\n' + 1

/-- Columns are numbered from one. -/
def column (fault : SyntaxFault) (text : String) : Nat :=
  ((fault.before text).reverse.takeWhile (· != '\n')).length + 1

/-- The diagnostic for a text that is not JSON; it has no place in a tree. -/
def diagnostic (fault : SyntaxFault) (text : String) : Diagnostic where
  severity := .error
  code := "E001"
  message := "invalid JSON: " ++ fault.cause.message ++ " (line " ++ toString (fault.line text) ++
    ", column " ++ toString (fault.column text) ++ ")"

end SyntaxFault
end Json
end CaseScript
