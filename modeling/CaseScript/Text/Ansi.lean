/-!
# Terminal escapes

Text meant for a terminal may hold control sequences: U+001B and a bracket, then parameters,
intermediate characters and one final character. The three kinds of characters have no member in
common, so a sequence ends where the first final character stands.
-/

namespace CaseScript
namespace Text

def escapeChar : Char := '\x1b'

/-- The characters that may stand in a sequence, after the bracket and in this order. -/
structure EscapeForm where
  isParameter : Char → Bool
  isIntermediate : Char → Bool
  isFinal : Char → Bool

/-- All control sequences: digits and `:;<=>?` are parameters, the characters from the space to the
slash are intermediate, and those from the at sign to the tilde are final. -/
def controlSequence : EscapeForm where
  isParameter c := '0' ≤ c && c ≤ '?'
  isIntermediate c := ' ' ≤ c && c ≤ '/'
  isFinal c := '@' ≤ c && c ≤ '~'

/-- What follows the escape sequence at the front, if one stands there. -/
def afterEscape? (form : EscapeForm) : List Char → Option (List Char)
  | c :: '[' :: rest =>
    if c = escapeChar then
      match (rest.dropWhile form.isParameter).dropWhile form.isIntermediate with
      | [] => none
      | final :: after => if form.isFinal final then some after else none
    else none
  | _ => none

theorem length_of_afterEscape? {form : EscapeForm} {s after : List Char}
    (h : afterEscape? form s = some after) : after.length < s.length := by
  unfold afterEscape? at h
  split at h
  · rename_i c rest
    have hparameters := (List.dropWhile_sublist form.isParameter (l := rest)).length_le
    have hle := (List.dropWhile_sublist form.isIntermediate
      (l := rest.dropWhile form.isParameter)).length_le
    split at h
    · split at h
      · simp at h
      · rename_i final tail heq
        rw [heq] at hle
        split at h
        · obtain rfl := Option.some.inj h
          simp only [List.length_cons] at hle ⊢
          omega
        · simp at h
    · simp at h
  · simp at h

/-- The characters without their escape sequences. -/
def stripEscapes (form : EscapeForm) (s : List Char) : List Char :=
  match _h : afterEscape? form s with
  | some after => stripEscapes form after
  | none =>
    match s with
    | [] => []
    | c :: rest => c :: stripEscapes form rest
termination_by s.length
decreasing_by
  · exact length_of_afterEscape? _h
  · simp

/-- The text without its control sequences. -/
def plain (s : String) : String := String.ofList (stripEscapes controlSequence s.toList)

@[simp] theorem stripEscapes_nil (form : EscapeForm) : stripEscapes form [] = [] := by
  rw [stripEscapes]
  rfl

example : plain "\x1b[1;31merror\x1b[0m: \x1b[" = "error: \x1b[" := by decide +kernel
example : plain "\x1b[1:2m+\x1b[ q-\x1b[[A" = "+-A" := by decide +kernel

end Text
end CaseScript
