import QueryLoop.CommandLine.Arguments
import QueryLoop.CommandLine.Formatter
import QueryLoop.CommandLine.LoopTool
import QueryLoop.CommandLine.Outcome
import QueryLoop.Diagnostic
import QueryLoop.Document
import QueryLoop.Finding
import QueryLoop.Fix
import QueryLoop.Format.Source
import QueryLoop.Format.Splice
import QueryLoop.Format.Tree
import QueryLoop.Grammar.Expr
import QueryLoop.Grammar.Item
import QueryLoop.Grammar.Stmt
import QueryLoop.Grammar.Type
import QueryLoop.Layout.Doc
import QueryLoop.Main
import QueryLoop.Operator
import QueryLoop.Parse
import QueryLoop.Parsing.Failure
import QueryLoop.Parsing.Parser
import QueryLoop.Parsing.Recovery
import QueryLoop.Parsing.SyntaxError
import QueryLoop.Pipeline.Edit
import QueryLoop.Pipeline.Lambda
import QueryLoop.Pipeline.Plan
import QueryLoop.Problem
import QueryLoop.Proofs.Binding.FreshName
import QueryLoop.Proofs.Binding.Names
import QueryLoop.Proofs.Binding.Parameter
import QueryLoop.Proofs.Binding.References
import QueryLoop.Resolver
import QueryLoop.Rule
import QueryLoop.Shape
import QueryLoop.Span
import QueryLoop.SymbolTable
import QueryLoop.Text.Blank
import QueryLoop.Text.CharWidth
import QueryLoop.Text.Emoji
import QueryLoop.Text.Ligature
import QueryLoop.Text.Ranges
import QueryLoop.Text.Slice
import QueryLoop.Text.Utf8
import QueryLoop.Text.Width
import QueryLoop.Token
import QueryLoop.Token.Lexer
import QueryLoop.Tree.Build
import QueryLoop.Tree.Contents
import QueryLoop.Tree.Declarations
import QueryLoop.Tree.Expr
import QueryLoop.Tree.Item
import QueryLoop.Tree.Outline
import QueryLoop.Tree.Replace
import QueryLoop.Tree.Sexpr
import QueryLoop.Tree.Stmt
import QueryLoop.Proofs.Behaviour.Computation
import QueryLoop.Proofs.Behaviour.Semantics
import QueryLoop.Proofs.Behaviour.Coincidence
import QueryLoop.Proofs.Behaviour.Laws
import QueryLoop.Proofs.Behaviour.Filter
import QueryLoop.Proofs.Behaviour.Map
import QueryLoop.Proofs.Place.Arranged
import QueryLoop.Proofs.Reading.Ensures
import QueryLoop.Proofs.Place.Exchange
import QueryLoop.Proofs.Place.Parsed
import QueryLoop.Proofs.Fixing.Planned
import QueryLoop.Proofs.Fixing.Applied
import QueryLoop.Proofs.Fixing.Weighed
import QueryLoop.Proofs.Fixing.FixedPoint
import QueryLoop.Proofs.Reading.Yields
import QueryLoop.Proofs.Spelling.Fitting
import QueryLoop.Proofs.Spelling.Expressions
import QueryLoop.Proofs.Reading.Cleanly
import QueryLoop.Proofs.Spelling.Fitted
import QueryLoop.Proofs.Spelling.Statements
import QueryLoop.Proofs.Spelling.Items
import QueryLoop.Proofs.Spelling.Settled
import QueryLoop.Proofs.Spelling.Trees
import QueryLoop.Proofs.Spelling.Lexical
import QueryLoop.Proofs.Spelling.Scanning
import QueryLoop.Proofs.Spelling.Located
import QueryLoop.Proofs.Place.Anchored
import QueryLoop.Proofs.Fixing.Kept
import QueryLoop.Proofs.Fixing.Local
import QueryLoop.Proofs.Fixing.Spliced
import QueryLoop.Proofs.Printing.Layouts
import QueryLoop.Proofs.Printing.Words
import QueryLoop.Proofs.Printing.Documents
import QueryLoop.Proofs.Printing.Expressions
import QueryLoop.Proofs.Printing.Statements
import QueryLoop.Proofs.Printing.Formatted
import QueryLoop.Proofs.Spelling.Derived
import QueryLoop.Proofs.Printing.Usable
import QueryLoop.Proofs.Printing.Rewritten
import QueryLoop.Proofs.Printing.Reread
import QueryLoop.Proofs.Printing.Seams
import QueryLoop.Proofs.Printing.Reindented
import QueryLoop.Proofs.Printing.SplicedTokens
import QueryLoop.Proofs.Place.Nodes
import QueryLoop.Proofs.Spelling.Canonical
import QueryLoop.Proofs.Reading.Alike
import QueryLoop.Proofs.Spelling.Layout
import QueryLoop.Proofs.Place.Errors
import QueryLoop.Proofs.Fixing.Errors
import QueryLoop.Proofs.Fixing.Nested
import QueryLoop.Proofs.Fixing.Replanned
import QueryLoop.Proofs.Fixing.Order
import QueryLoop.Proofs.Binding.ParameterUse
import QueryLoop.Proofs.Fixing.Reassigned
import QueryLoop.Proofs.Fixing.Progress
import QueryLoop.Proofs.Reading.Quiet
import QueryLoop.Proofs.Spelling.Lossless
import QueryLoop.Proofs.Place.Replaced
import QueryLoop.Proofs.Place.Nested
import QueryLoop.Proofs.Place.Lookup
import QueryLoop.Proofs.Reading.Reports
import QueryLoop.Proofs.Spelling.Unrecognized
import QueryLoop.Proofs.Spelling.Unterminated
import QueryLoop.Proofs.Fixing.Pruned
import QueryLoop.Proofs.Fixing.Reported
import QueryLoop.Proofs.Printing.Negated
import QueryLoop.Proofs.Reading.Builds
import QueryLoop.Proofs.Spelling.Legible
import QueryLoop.Proofs.Printing.Parenthesized
import QueryLoop.Proofs.Printing.Forms
import QueryLoop.Proofs.Printing.Determined
