import OrderEncoding.Choices
import OrderEncoding.CommandLine.Options
import OrderEncoding.CommandLine.Programs
import OrderEncoding.CommandLine.Run
import OrderEncoding.Dimacs.Printer
import OrderEncoding.Dimacs.Reader
import OrderEncoding.Encoding.Assembly
import OrderEncoding.Encoding.Axioms
import OrderEncoding.Encoding.Linear
import OrderEncoding.Encoding.Tuples
import OrderEncoding.Event
import OrderEncoding.Failure
import OrderEncoding.Files
import OrderEncoding.Formula
import OrderEncoding.Inequality
import OrderEncoding.Interval
import OrderEncoding.LinearForm
import OrderEncoding.Main
import OrderEncoding.Problem.Basic
import OrderEncoding.Problem.Comparison
import OrderEncoding.Problem.Literal
import OrderEncoding.Problem.NormalForm
import OrderEncoding.Problem.Reader
import OrderEncoding.Problem.Side
import OrderEncoding.Proofs.ChoicePlaces
import OrderEncoding.Proofs.Choices
import OrderEncoding.Proofs.Dimacs.Format
import OrderEncoding.Proofs.Dimacs.Models
import OrderEncoding.Proofs.Dimacs.Names
import OrderEncoding.Proofs.Dimacs.RoundTrip
import OrderEncoding.Proofs.Encoding.Arithmetic
import OrderEncoding.Proofs.Encoding.Assembly
import OrderEncoding.Proofs.Encoding.Atoms
import OrderEncoding.Proofs.Encoding.AxiomModels
import OrderEncoding.Proofs.Encoding.Axioms
import OrderEncoding.Proofs.Encoding.Counting
import OrderEncoding.Proofs.Encoding.Distinct
import OrderEncoding.Proofs.Encoding.DistinctSets
import OrderEncoding.Proofs.Encoding.ExactSums
import OrderEncoding.Proofs.Encoding.ExactTuples
import OrderEncoding.Proofs.Encoding.FilteredTuples
import OrderEncoding.Proofs.Encoding.Inequalities
import OrderEncoding.Proofs.Encoding.Linear
import OrderEncoding.Proofs.Encoding.Models
import OrderEncoding.Proofs.Encoding.NeededAxioms
import OrderEncoding.Proofs.Encoding.SingleTerms
import OrderEncoding.Proofs.Encoding.Sizes
import OrderEncoding.Proofs.Encoding.Thresholds
import OrderEncoding.Proofs.Encoding.Tuples
import OrderEncoding.Proofs.Encoding.WordRange
import OrderEncoding.Proofs.Files
import OrderEncoding.Proofs.Formula.Blocking
import OrderEncoding.Proofs.Formula.Extension
import OrderEncoding.Proofs.Formula.ModelCount
import OrderEncoding.Proofs.Formula.Numbering
import OrderEncoding.Proofs.Formula.Operations
import OrderEncoding.Proofs.Formula.Registration
import OrderEncoding.Proofs.Formula.UnambiguousTexts
import OrderEncoding.Proofs.Pairings
import OrderEncoding.Proofs.Problem.Comparisons
import OrderEncoding.Proofs.Problem.Declarations
import OrderEncoding.Proofs.Problem.Grammar
import OrderEncoding.Proofs.Problem.InequalityRoundTrip
import OrderEncoding.Proofs.Problem.Layout
import OrderEncoding.Proofs.Problem.LinearForms
import OrderEncoding.Proofs.Problem.Literals
import OrderEncoding.Proofs.Problem.Meaning
import OrderEncoding.Proofs.Problem.MergedForms
import OrderEncoding.Proofs.Problem.NormalForms
import OrderEncoding.Proofs.Problem.Printing
import OrderEncoding.Proofs.Problem.Reading
import OrderEncoding.Proofs.Problem.RoundTrip
import OrderEncoding.Proofs.Problem.SideGrammar
import OrderEncoding.Proofs.Problem.Sides
import OrderEncoding.Proofs.Problem.Solutions
import OrderEncoding.Proofs.Problem.Terms
import OrderEncoding.Proofs.Problem.WellFormed
import OrderEncoding.Proofs.Problem.Written
import OrderEncoding.Proofs.Repetitions
import OrderEncoding.Proofs.Results
import OrderEncoding.Proofs.Solving.AnswerFormat
import OrderEncoding.Proofs.Solving.Answers
import OrderEncoding.Proofs.Solving.Asking
import OrderEncoding.Proofs.Solving.Calls
import OrderEncoding.Proofs.Solving.Coverage
import OrderEncoding.Proofs.Solving.CutOffModels
import OrderEncoding.Proofs.Solving.Decoding
import OrderEncoding.Proofs.Solving.Enumeration
import OrderEncoding.Proofs.Solving.Excluding
import OrderEncoding.Proofs.Solving.Failures
import OrderEncoding.Proofs.Solving.Histories
import OrderEncoding.Proofs.Solving.Instances
import OrderEncoding.Proofs.Solving.Interruptions
import OrderEncoding.Proofs.Solving.LeastValues
import OrderEncoding.Proofs.Solving.Limits
import OrderEncoding.Proofs.Solving.OldAnswers
import OrderEncoding.Proofs.Solving.Replies
import OrderEncoding.Proofs.Solving.ReportedSolutions
import OrderEncoding.Proofs.Solving.Reports
import OrderEncoding.Proofs.Solving.Rounds
import OrderEncoding.Proofs.Solving.Search
import OrderEncoding.Proofs.Solving.UnambiguousReports
import OrderEncoding.Proofs.Text.Blanks
import OrderEncoding.Proofs.Text.Characters
import OrderEncoding.Proofs.Text.Lines
import OrderEncoding.Proofs.Text.Numerals
import OrderEncoding.Proofs.Text.Separators
import OrderEncoding.Proofs.Totals
import OrderEncoding.Script.Builtin
import OrderEncoding.Script.Command
import OrderEncoding.Script.Printing
import OrderEncoding.Script.Reader
import OrderEncoding.Script.Run
import OrderEncoding.Script.State
import OrderEncoding.Solution
import OrderEncoding.Solving.Backend
import OrderEncoding.Solving.Decoding
import OrderEncoding.Solving.Report
import OrderEncoding.Solving.Search
import OrderEncoding.Solving.Session
import OrderEncoding.Solving.Settings
import OrderEncoding.Solving.Verdict
import OrderEncoding.Text.Blank
import OrderEncoding.Text.DecimalDigit
import OrderEncoding.Text.Numeral
import OrderEncoding.Text.Utf8
import OrderEncoding.Total
import OrderEncoding.Variable
import OrderEncoding.Word
