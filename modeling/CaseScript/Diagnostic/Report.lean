import CaseScript.Diagnostic.Basic

/-!
# Reports on a terminal

A report is made of lines of spans, each span in one style. With colours a styled span stands
between the escape sequence of its style and the one that resets it; without colours its text stands
alone.
-/

namespace CaseScript
namespace Report

inductive Style where
  | bold
  | frame
  | severity (s : Severity)
  deriving DecidableEq, Repr

namespace Style

/-- The escape sequence that begins a style. -/
def code : Style → String
  | bold => "\x1b[1m"
  | frame => "\x1b[1;34m"
  | severity .error => "\x1b[1;31m"
  | severity .warning => "\x1b[1;33m"
  | severity .note => "\x1b[1;36m"

def reset : String := "\x1b[0m"

end Style

/-- A piece of a line; `style` is `none` for text in the terminal's own style. -/
structure Span where
  style : Option Style
  text : String
  deriving DecidableEq, Repr

namespace Span

def plain (text : String) : Span := ⟨none, text⟩

def styled (style : Style) (text : String) : Span := ⟨some style, text⟩

def written (color : Bool) : Span → String
  | ⟨some style, text⟩ => if color then style.code ++ text ++ Style.reset else text
  | ⟨none, text⟩ => text

@[simp] theorem written_plain (color : Bool) (text : String) :
    (plain text).written color = text := rfl

@[simp] theorem written_without_color (span : Span) : span.written false = span.text := by
  rcases span with ⟨_ | _, _⟩ <;> rfl

end Span

def header (d : Diagnostic) : List Span :=
  [.styled (.severity d.severity) (d.severity.name ++ "[" ++ d.code ++ "]"),
    .styled .bold (": " ++ d.message)]

/-- The place of a label, and its message on a line of its own. -/
def labelLines (fileName : String) (severity : Severity) (label : Label) : List (List Span) :=
  [.plain "  ", .styled .frame "-->", .plain (" " ++ fileName ++ "#" ++ label.trail.written)] ::
    if label.message = "" then [] else
      [[.plain "  ", .styled .frame "   |", .plain "   ",
        .styled (.severity severity) label.message]]

def noteLine (note : String) : List Span :=
  [.plain "  ", .styled .frame "=", .plain (" note: " ++ note)]

def suggestionLine (suggestion : Suggestion) : List Span :=
  [.plain "  ", .styled .frame "try:", .plain (" " ++ suggestion.replacement)]

def lines (fileName : String) (d : Diagnostic) : List (List Span) :=
  header d :: d.labels.flatMap (labelLines fileName d.severity) ++ d.notes.map noteLine ++
    d.suggestions.map suggestionLine

def writtenLine (color : Bool) (spans : List Span) : String :=
  String.join (spans.map (·.written color))

end Report

/-- The report on a diagnostic about the tree in `fileName`. -/
def Diagnostic.report (color : Bool) (fileName : String) (d : Diagnostic) : String :=
  "\n".intercalate ((Report.lines fileName d).map (Report.writtenLine color))

end CaseScript
