import Versioning.Text.Blank
import Versioning.Text.Pieces
import Versioning.Identifier
import Versioning.Version.Basic
import Versioning.Version.Fault
import Versioning.Version.Reader
import Versioning.Version.Precedence
import Versioning.Version.Lenient
import Versioning.Release.Kind
import Versioning.Release.Step
import Versioning.Range.Comparator
import Versioning.Range.Operand
import Versioning.Range.Item
import Versioning.Range.Conjunction
import Versioning.Range.Branch
import Versioning.Range.Basic
import Versioning.Selection
import Versioning.Text.Control
import Versioning.Text.Quoted
import Versioning.Cli.Style
import Versioning.Cli.Document
import Versioning.Cli.Journal
import Versioning.Toml.Reader
import Versioning.Cli.Settings
import Versioning.Cli.Arguments
import Versioning.Cli.Answer
import Versioning.Cli.Program
import Versioning.Main
import Versioning.Proofs.Precedence
import Versioning.Proofs.Order
import Versioning.Proofs.Layout
import Versioning.Proofs.Alternatives
import Versioning.Proofs.Operand
import Versioning.Proofs.Entry
import Versioning.Proofs.Ceiling
import Versioning.Proofs.Branch
import Versioning.Proofs.Minimum
import Versioning.Proofs.Spelling
import Versioning.Proofs.RoundTrip
import Versioning.Proofs.Reading
import Versioning.Proofs.Grammar
import Versioning.Proofs.Session
import Versioning.Proofs.Disjunction
import Versioning.Proofs.Triple
import Versioning.Proofs.Absence
import Versioning.Proofs.Sorting
import Versioning.Proofs.Selection
import Versioning.Proofs.FullOperand
import Versioning.Proofs.Dash
import Versioning.Proofs.Refusal
import Versioning.Proofs.Interval
import Versioning.Proofs.Least
import Versioning.Proofs.Prefix
import Versioning.Proofs.Single
import Versioning.Proofs.Caret
import Versioning.Proofs.Tilde
import Versioning.Proofs.Verbosity
import Versioning.Proofs.Verdict
import Versioning.Proofs.Nearest
import Versioning.Proofs.Cursor
import Versioning.Proofs.Traced
import Versioning.Proofs.Scanner
import Versioning.Proofs.Covering
import Versioning.Proofs.Bare
import Versioning.Proofs.Between
import Versioning.Proofs.Unfailing
import Versioning.Proofs.Advance
import Versioning.Proofs.Retreat
import Versioning.Proofs.Stability
import Versioning.Proofs.Collection
import Versioning.Proofs.Found
