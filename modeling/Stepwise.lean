import Stepwise.Check.Content
import Stepwise.Check.Layout
import Stepwise.Check.Problem
import Stepwise.Check.Rules
import Stepwise.Check.Statement
import Stepwise.CommandLine
import Stepwise.Debugger.Basic
import Stepwise.Debugger.Command
import Stepwise.Expr.Basic
import Stepwise.Expr.Eval
import Stepwise.Expr.Malformed
import Stepwise.Expr.Parser
import Stepwise.Files.Folder
import Stepwise.Log.Basic
import Stepwise.Log.Lines
import Stepwise.Main
import Stepwise.Program.Basic
import Stepwise.Program.Command
import Stepwise.Program.Parser
import Stepwise.Proofs.Commands
import Stepwise.Proofs.Console
import Stepwise.Proofs.Control
import Stepwise.Proofs.Cursor
import Stepwise.Proofs.Cutting
import Stepwise.Proofs.Gate
import Stepwise.Proofs.Grammar
import Stepwise.Proofs.Groups
import Stepwise.Proofs.Journal
import Stepwise.Proofs.LabelCount
import Stepwise.Proofs.Labels
import Stepwise.Proofs.Listing
import Stepwise.Proofs.ListingLines
import Stepwise.Proofs.Marks
import Stepwise.Proofs.PendingQueue
import Stepwise.Proofs.Reading
import Stepwise.Proofs.Regular
import Stepwise.Proofs.RoundTrip
import Stepwise.Proofs.Run
import Stepwise.Proofs.RunSafety
import Stepwise.Proofs.Script
import Stepwise.Proofs.ScriptCommands
import Stepwise.Proofs.ScriptLines
import Stepwise.Proofs.TraceReplay
import Stepwise.Proofs.Turns
import Stepwise.Proofs.Undo
import Stepwise.Report.Basic
import Stepwise.Report.State
import Stepwise.Run.Basic
import Stepwise.Run.Stream
import Stepwise.Session.Basic
import Stepwise.Session.Display
import Stepwise.Session.Fault
import Stepwise.Session.Label
import Stepwise.Session.Load
import Stepwise.Session.Step
import Stepwise.Settings.Basic
import Stepwise.Settings.Environment
import Stepwise.Settings.Flags
import Stepwise.Source.Lines
import Stepwise.Source.Span
import Stepwise.Text.Blank
import Stepwise.Text.Bytes
import Stepwise.Text.Columns
import Stepwise.Text.Decimal
import Stepwise.Text.Distance
import Stepwise.Text.Letter
import Stepwise.Text.NaturalOrder
import Stepwise.Text.Printable
import Stepwise.Text.Quoted
import Stepwise.Text.Radix
import Stepwise.Text.Ranges
import Stepwise.Text.Trim
import Stepwise.Text.Words
import Stepwise.Token.Basic
import Stepwise.Token.Lexer
import Stepwise.Value
import Stepwise.Yaml.Document
import Stepwise.Yaml.Resolve
import Stepwise.Yaml.Scalar
import Stepwise.Yaml.Timestamp
import Stepwise.Proofs.ConsoleStream
import Stepwise.Proofs.DebuggerRun
import Stepwise.Proofs.ExprReading
import Stepwise.Proofs.ConditionReading
import Stepwise.Proofs.Seams
import Stepwise.Proofs.LeftToRight
import Stepwise.Proofs.Rereading
import Stepwise.Proofs.Offside
import Stepwise.Proofs.Extents
import Stepwise.Proofs.Announced
import Stepwise.Proofs.Forward
import Stepwise.Proofs.DebuggerAtomic
import Stepwise.Proofs.Division
import Stepwise.Proofs.LineEndings
import Stepwise.Proofs.Columns
import Stepwise.Proofs.Carets
import Stepwise.Proofs.Parentheses
import Stepwise.Proofs.Hints
import Stepwise.Proofs.Numerals
import Stepwise.Proofs.EqualsSigns
import Stepwise.Proofs.Kinds
import Stepwise.Proofs.Literals
