import Decaf.Text.Span
import Decaf.Text.Lines
import Decaf.Text.Characters
import Decaf.Text.Outline
import Decaf.Token.Basic
import Decaf.Token.Scan
import Decaf.Token.Lexer
import Decaf.Token.Literal
import Decaf.Syntax.Operator
import Decaf.Syntax.Basic
import Decaf.Syntax.Chain
import Decaf.Syntax.Walk
import Decaf.Syntax.Dump
import Decaf.Syntax.Reader
import Decaf.Syntax.Parser
import Decaf.Scope.Basic
import Decaf.Scope.Build
import Decaf.Check.Diagnostic
import Decaf.Check.Rules
import Decaf.Check.Analysis
import Decaf.Report.Fault
import Decaf.Report.Snippet
import Decaf.Report.Event
import Decaf.Session
import Decaf.Text.Similar
import Decaf.Text.Stripped
import Decaf.CommandLine.Arguments
import Decaf.CommandLine.Texts
import Decaf.CommandLine.Run
import Decaf.Main
import Decaf.Proofs.Token.Spelled
import Decaf.Proofs.Syntax.Tree
import Decaf.Proofs.Syntax.Grammar
import Decaf.Proofs.Syntax.Literals
import Decaf.Proofs.Syntax.Precedence
import Decaf.Proofs.Syntax.Readers
import Decaf.Proofs.Syntax.Induction
import Decaf.Proofs.Syntax.Soundness
import Decaf.Proofs.Syntax.Completeness
import Decaf.Proofs.Syntax.Acceptance
import Decaf.Proofs.Syntax.Shape
import Decaf.Proofs.Syntax.Printed
import Decaf.Proofs.Syntax.Phrases
import Decaf.Proofs.Syntax.Behaviour
import Decaf.Proofs.Syntax.Tracking
import Decaf.Proofs.Syntax.FirstError
import Decaf.Proofs.Syntax.SideBySide
import Decaf.Proofs.Syntax.Occurrences
import Decaf.Proofs.Scope.Frames
import Decaf.Proofs.Scope.Lookup
import Decaf.Proofs.Scope.Mirror
import Decaf.Proofs.Check.Compositional
import Decaf.Proofs.Check.Reference
import Decaf.Proofs.Check.Agreement
import Decaf.Proofs.Check.WellFormed
import Decaf.Proofs.Check.Redeclared
import Decaf.Proofs.Check.Repeated
import Decaf.Proofs.Check.Trace
import Decaf.Proofs.Scope.History
import Decaf.Proofs.Token.Coverage
import Decaf.Proofs.Token.Spaced
import Decaf.Proofs.Syntax.Layout
import Decaf.Proofs.Scope.Layout
import Decaf.Proofs.Check.Layout
import Decaf.Proofs.Check.Preset
import Decaf.Proofs.Check.Modular
import Decaf.Proofs.Syntax.Nodes
import Decaf.Proofs.Syntax.Positions
import Decaf.Proofs.Check.Positions
import Decaf.Proofs.Scope.Building
import Decaf.Proofs.Check.Preconditions
import Decaf.Proofs.Syntax.Climbing
import Decaf.Proofs.Syntax.Slices
import Decaf.Proofs.Scope.SourceOrder
import Decaf.Proofs.Check.Blamed
import Decaf.Proofs.Syntax.Joined
import Decaf.Proofs.Check.ReportedLines
import Decaf.Proofs.Check.Messages
import Decaf.Proofs.CommandLine.Presentation
import Decaf.Proofs.Syntax.Grouping
import Decaf.Proofs.Token.Peeking
import Decaf.Proofs.Syntax.VisitOrder
import Decaf.Proofs.Check.Balance
import Decaf.Proofs.Text.Newlines
import Decaf.Proofs.Syntax.LiteralTokens
import Decaf.Proofs.Syntax.Strings
import Decaf.Proofs.Syntax.Numbers
import Decaf.Proofs.Check.ArrayLengths
import Decaf.Proofs.Syntax.Descent
import Decaf.Proofs.Syntax.Standing
import Decaf.Proofs.Syntax.Following
import Decaf.Proofs.Syntax.Progress
