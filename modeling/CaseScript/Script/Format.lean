import CaseScript.Doc.Layout
import CaseScript.Script.Basic
import CaseScript.Script.Condition

/-!
# The format of scripts

Lists, arguments and parameters are groups: on one line if they fit, otherwise one item a line and a
comma after each. Every statement of a block has lines of its own.
-/

namespace CaseScript
namespace Script

open Doc

def comma : Doc := text "," ++ space

/-- Items between delimiters, with breaks that belong to the group around. -/
def enclosed (opening : String) (items : List Doc) (closing : String) : Doc :=
  if items.isEmpty then text (opening ++ closing)
  else
    concat
      [text opening, nestIfBroken indentation (softBreak ++ join comma items), brk "" ",",
        text closing]

/-- Items between delimiters in a group of their own. -/
def wrapped (opening : String) (items : List Doc) (closing : String) : Doc :=
  group (enclosed opening items closing)

def declaration (identifier : String) (value : Doc) : Doc :=
  concat [text ("let " ++ identifier ++ " = "), value, text ";"]

def giving (value : Doc) : Doc := concat [text "return ", value, text ";"]

/-- Indented statements, each after a newline. -/
def indented (stmts : List Doc) : Doc := nest indentation (line ++ join line stmts)

def immediate (stmts : List Doc) : Doc :=
  concat [text "(() => \x7b", indented stmts, line, text "\x7d)()"]

def conditional (tests : List Doc) (body : List Doc) : Doc :=
  concat
    [group (concat
        [text "if (", nest indentation (softBreak ++ conjunction tests), softBreak,
          text ") \x7b"]),
      indented body, line, text "\x7d"]

/-- The message with which a script fails when no clause matches. -/
def failureMessage : String := "Non-exhaustive match clauses"

def failure : Doc :=
  text ("throw new Error(" ++ stringLiteral (Text.ofString failureMessage) ++ ");")

def arrowDoc (params : List String) (body : Doc) : Doc :=
  group (concat
    [enclosed "(" (params.map text) ")", text " =>", nestIfBroken indentation (space ++ body)])

def parenthesized (needed : Bool) (doc : Doc) : Doc :=
  if needed then concat [text "(", doc, text ")"] else doc

mutual

def Term.doc : Term → Doc
  | .literal value => text value.written
  | .name identifier => text identifier
  | .array items => wrapped "[" (Term.docs items) "]"
  | .operation op left right => concat [left.doc, text (" " ++ op ++ " "), right.doc]
  | .arrow params body => arrowDoc params body.doc
  | .call function args =>
    parenthesized function.needsParens function.doc ++ wrapped "(" (Term.docs args) ")"
  | .ref place => place.doc text
  | .block body => immediate (Stmt.docs body)

def Term.docs : List Term → List Doc
  | [] => []
  | term :: rest => term.doc :: Term.docs rest

def Stmt.doc : Stmt → Doc
  | .declare identifier value => declaration identifier value.doc
  | .give value => giving value.doc
  | .guarded checks body => conditional (checks.map (·.doc text)) (Stmt.docs body)
  | .fail => failure

def Stmt.docs : List Stmt → List Doc
  | [] => []
  | stmt :: rest => stmt.doc :: Stmt.docs rest

end

/-- The text of a script laid out to `width` columns. -/
def Term.render (width : Int) (term : Term) : String := term.doc.render width

end Script
end CaseScript
