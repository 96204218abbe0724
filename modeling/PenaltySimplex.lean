import PenaltySimplex.Scalar
import PenaltySimplex.Capacity
import PenaltySimplex.Logged
import PenaltySimplex.Decimal.Text
import PenaltySimplex.Decimal.Numeral
import PenaltySimplex.Character
import PenaltySimplex.Event
import PenaltySimplex.ModelError
import PenaltySimplex.Problem
import PenaltySimplex.StandardForm
import PenaltySimplex.Linear.Vector
import PenaltySimplex.Linear.ColumnSpace
import PenaltySimplex.Linear.RowSelection
import PenaltySimplex.Consistency
import PenaltySimplex.Tableau
import PenaltySimplex.Tableau.Penalty
import PenaltySimplex.Simplex.Rule
import PenaltySimplex.Simplex.Run
import PenaltySimplex.Solution
import PenaltySimplex.Verification
import PenaltySimplex.Solver
import PenaltySimplex.Format.Token
import PenaltySimplex.Format.Lexer
import PenaltySimplex.Format.ParseError
import PenaltySimplex.Format.Input
import PenaltySimplex.Format.Parser
import PenaltySimplex.Format.Reference
import PenaltySimplex.Format.Diagnostic
import PenaltySimplex.Format.Web
import PenaltySimplex.Json.Value
import PenaltySimplex.Json.Printer
import PenaltySimplex.Json.Reader
import PenaltySimplex.Json.Library
import PenaltySimplex.Json.Results
import PenaltySimplex.Command.Arguments
import PenaltySimplex.Command.Session
import PenaltySimplex.Command.Directory
import PenaltySimplex.Command.Report
import PenaltySimplex.Command.Run
import PenaltySimplex.Main
import PenaltySimplex.Proofs.OrderedField
import PenaltySimplex.Proofs.LinearForm
import PenaltySimplex.Proofs.Program
import PenaltySimplex.Proofs.EqualityForm
import PenaltySimplex.Proofs.ColumnDistance
import PenaltySimplex.Proofs.RowReduction
import PenaltySimplex.Proofs.TableauProgram
import PenaltySimplex.Proofs.Basis
import PenaltySimplex.Proofs.Exchange
import PenaltySimplex.Proofs.Choice
import PenaltySimplex.Proofs.Run
import PenaltySimplex.Proofs.Certificate
import PenaltySimplex.Proofs.Resolution
import PenaltySimplex.Proofs.Termination
import PenaltySimplex.Proofs.Penalty
import PenaltySimplex.Proofs.Threshold
import PenaltySimplex.Proofs.ExactSolver
import PenaltySimplex.Proofs.Verdict
import PenaltySimplex.Proofs.Invariant
import PenaltySimplex.Proofs.Outcome
import PenaltySimplex.Proofs.Analysis
import PenaltySimplex.Proofs.IterationCap
import PenaltySimplex.Proofs.Lexing
import PenaltySimplex.Proofs.BinaryValue
import PenaltySimplex.Proofs.FileGrammar
import PenaltySimplex.Proofs.Parsing
import PenaltySimplex.Proofs.LineParsing
import PenaltySimplex.Proofs.FiniteFloat
import PenaltySimplex.Proofs.MatrixForm
import PenaltySimplex.Proofs.FileProblem
import PenaltySimplex.Proofs.SlackColumns
import PenaltySimplex.Proofs.FileTree
import PenaltySimplex.Proofs.Answer
import PenaltySimplex.Proofs.SolveCommand
import PenaltySimplex.Proofs.RoundedFloat
import PenaltySimplex.Proofs.WrittenNumber
import PenaltySimplex.Proofs.ReferenceGrammar
import PenaltySimplex.Proofs.PrintedLexemes
import PenaltySimplex.Proofs.WrittenReference
import PenaltySimplex.Proofs.NearestFloat
import PenaltySimplex.Proofs.StableReference
import PenaltySimplex.Proofs.SavedSolution
import PenaltySimplex.Proofs.SmallTolerance
import PenaltySimplex.Proofs.PenaltyAnswer
import PenaltySimplex.Proofs.FineSolver
import PenaltySimplex.Proofs.RowScaling
import PenaltySimplex.Proofs.RedundantEquation
import PenaltySimplex.Proofs.RowOrientation
import PenaltySimplex.Proofs.Descent
import PenaltySimplex.Proofs.RatioTest
import PenaltySimplex.Proofs.Shortfall
import PenaltySimplex.Proofs.FloatOrder
import PenaltySimplex.Proofs.ReferenceMatch
import PenaltySimplex.Proofs.ParserErrors
import PenaltySimplex.Proofs.AlikeTokens
import PenaltySimplex.Proofs.BlankLines
import PenaltySimplex.Proofs.LineLocality
import PenaltySimplex.Proofs.RowLengths
import PenaltySimplex.Proofs.ErrorPlace
import PenaltySimplex.Proofs.TokenPositions
import PenaltySimplex.Proofs.ParserWork
import PenaltySimplex.Proofs.Pruning
import PenaltySimplex.Proofs.RepeatedAnalysis
import PenaltySimplex.Proofs.BufferPivot
import PenaltySimplex.Proofs.CheckedRun
import PenaltySimplex.Proofs.Elimination
import PenaltySimplex.Proofs.NumeralFloat
import PenaltySimplex.Proofs.RoundingInterval
import PenaltySimplex.Proofs.ShortestDigits
import PenaltySimplex.Proofs.JsonText
import PenaltySimplex.Proofs.NumberLiteral
import PenaltySimplex.Proofs.ResultRecords
