/-!
# Line ends

A line of a text file ends with a line feed, a carriage return or the pair of both.
-/

namespace CaseScript
namespace Text

/-- The characters with a line feed for every line end. -/
def withLineFeeds : List Char → List Char
  | [] => []
  | '\r' :: '\n' :: rest => '\n' :: withLineFeeds rest
  | '\r' :: rest => '\n' :: withLineFeeds rest
  | c :: rest => c :: withLineFeeds rest

theorem not_mem_withLineFeeds (s : List Char) : '\r' ∉ withLineFeeds s := by
  fun_induction withLineFeeds s <;> simp_all [eq_comm]

/-- The text in the bytes of a file, unless they are not UTF-8. -/
def ofFile? (bytes : ByteArray) : Option String :=
  (String.fromUTF8? bytes).map fun text => String.ofList (withLineFeeds text.toList)

end Text
end CaseScript
