import CaseScript.Assoc
import CaseScript.Command.Invocation
import CaseScript.Command.Options
import CaseScript.Command.Run
import CaseScript.Command.Session
import CaseScript.Diagnostic.Basic
import CaseScript.Diagnostic.Report
import CaseScript.Diagnostic.Trail
import CaseScript.Doc.Basic
import CaseScript.Doc.Layout
import CaseScript.Expr.Basic
import CaseScript.Expr.OfJson
import CaseScript.Expr.Outline
import CaseScript.Expr.ShapeFault
import CaseScript.Expr.Source
import CaseScript.Expr.Tag
import CaseScript.FileTree.Basic
import CaseScript.FileTree.PathName
import CaseScript.FileTree.Workspace
import CaseScript.Json.Basic
import CaseScript.Json.Lexeme
import CaseScript.Json.Reader
import CaseScript.Limits
import CaseScript.Main
import CaseScript.Name.Basic
import CaseScript.Name.Fault
import CaseScript.Pattern.Lowering
import CaseScript.Proofs.Assoc
import CaseScript.Proofs.Command.Actions
import CaseScript.Proofs.Command.Breakdowns
import CaseScript.Proofs.Command.Colors
import CaseScript.Proofs.Command.Files
import CaseScript.Proofs.Command.Loading
import CaseScript.Proofs.Command.View
import CaseScript.Proofs.Diagnostic.Report
import CaseScript.Proofs.Diagnostic.Trail
import CaseScript.Proofs.Doc.Arrangement
import CaseScript.Proofs.Doc.FlatText
import CaseScript.Proofs.Doc.LineEnds
import CaseScript.Proofs.Doc.Lines
import CaseScript.Proofs.Doc.OneLine
import CaseScript.Proofs.Doc.Progress
import CaseScript.Proofs.Doc.Steady
import CaseScript.Proofs.Doc.Tidy
import CaseScript.Proofs.Doc.Triples
import CaseScript.Proofs.Doc.Variants
import CaseScript.Proofs.Except
import CaseScript.Proofs.Expr.Decoder
import CaseScript.Proofs.Expr.Description
import CaseScript.Proofs.Expr.Encoding
import CaseScript.Proofs.Expr.Fields
import CaseScript.Proofs.Expr.Findings
import CaseScript.Proofs.Expr.FreeNames
import CaseScript.Proofs.Expr.Listing
import CaseScript.Proofs.Expr.Literals
import CaseScript.Proofs.Expr.Outline
import CaseScript.Proofs.Expr.Pruning
import CaseScript.Proofs.Expr.Recording
import CaseScript.Proofs.Expr.Schema
import CaseScript.Proofs.Expr.ShapeFaults
import CaseScript.Proofs.FileTree.Changes
import CaseScript.Proofs.FileTree.Paths
import CaseScript.Proofs.Js.Operands
import CaseScript.Proofs.Js.Renaming
import CaseScript.Proofs.Js.Scope
import CaseScript.Proofs.Js.Semantics
import CaseScript.Proofs.Js.StringLiteral
import CaseScript.Proofs.Js.Syntax
import CaseScript.Proofs.Js.Token
import CaseScript.Proofs.Json.Path
import CaseScript.Proofs.Json.Reader
import CaseScript.Proofs.Name.Identifier
import CaseScript.Proofs.Name.Suggestion
import CaseScript.Proofs.Pattern.Compiler
import CaseScript.Proofs.Pattern.Exactness
import CaseScript.Proofs.Pattern.Lowering
import CaseScript.Proofs.Pattern.Matching
import CaseScript.Proofs.Pattern.Occurrences
import CaseScript.Proofs.Pattern.Recovery
import CaseScript.Proofs.Pattern.Renaming
import CaseScript.Proofs.Pattern.Sessions
import CaseScript.Proofs.Script.Alignment
import CaseScript.Proofs.Script.Code
import CaseScript.Proofs.Script.Conditions
import CaseScript.Proofs.Script.Declarations
import CaseScript.Proofs.Script.Derivation
import CaseScript.Proofs.Script.Draft
import CaseScript.Proofs.Script.FaultPlaces
import CaseScript.Proofs.Script.Faults
import CaseScript.Proofs.Script.FirstMatch
import CaseScript.Proofs.Script.FlatText
import CaseScript.Proofs.Script.FreeNames
import CaseScript.Proofs.Script.Hygiene
import CaseScript.Proofs.Script.Levels
import CaseScript.Proofs.Script.Literal
import CaseScript.Proofs.Script.OneLine
import CaseScript.Proofs.Script.Operators
import CaseScript.Proofs.Script.Parts
import CaseScript.Proofs.Script.Reader
import CaseScript.Proofs.Script.Recovery
import CaseScript.Proofs.Script.Reports
import CaseScript.Proofs.Script.Scopes
import CaseScript.Proofs.Script.Shadowing
import CaseScript.Proofs.Script.Tidy
import CaseScript.Proofs.Script.Tokens
import CaseScript.Proofs.Script.Unbroken
import CaseScript.Proofs.Script.Warnings
import CaseScript.Proofs.Script.Widths
import CaseScript.Proofs.Settings.Discovery
import CaseScript.Proofs.Text.Ansi
import CaseScript.Proofs.Text.Margin
import CaseScript.Proofs.Text.Quoted
import CaseScript.Proofs.Text.Reading
import CaseScript.Script.Basic
import CaseScript.Script.Condition
import CaseScript.Script.Emission
import CaseScript.Script.Emitter
import CaseScript.Script.Format
import CaseScript.Script.Literal
import CaseScript.Script.OfExpr
import CaseScript.Settings.Basic
import CaseScript.Settings.Discovery
import CaseScript.Settings.OfToml
import CaseScript.Text.Ansi
import CaseScript.Text.Blank
import CaseScript.Text.CodePoint
import CaseScript.Text.Hex
import CaseScript.Text.LineEnd
import CaseScript.Text.Numeral
import CaseScript.Text.Operator
import CaseScript.Text.Printable
import CaseScript.Text.Quoted
import CaseScript.Toml.Basic
import CaseScript.Toml.Document
import CaseScript.Toml.Number
import CaseScript.Toml.Reader
import CaseScript.Toml.Text
