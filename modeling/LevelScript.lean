import LevelScript.Command.Files
import LevelScript.Command.Perform
import LevelScript.Command.Request
import LevelScript.Data
import LevelScript.Decimal.Binary64
import LevelScript.Decimal.Reading
import LevelScript.Decimal.Shortest
import LevelScript.Decimal.Text
import LevelScript.Diagnostic
import LevelScript.Document.Reading
import LevelScript.Document.Scalar
import LevelScript.Document.Writing
import LevelScript.Environment.Frame
import LevelScript.Environment.Scopes
import LevelScript.Evaluation.Machine
import LevelScript.Evaluation.State
import LevelScript.Fault
import LevelScript.Generator.Record
import LevelScript.Generator.Run
import LevelScript.Generator.Spelling
import LevelScript.Main
import LevelScript.Native
import LevelScript.Proofs.Addresses
import LevelScript.Proofs.Alphabet
import LevelScript.Proofs.Anchors
import LevelScript.Proofs.AssignmentEffects
import LevelScript.Proofs.AssignmentReads
import LevelScript.Proofs.AssignmentStates
import LevelScript.Proofs.AssignmentTargets
import LevelScript.Proofs.Attempts
import LevelScript.Proofs.Budget
import LevelScript.Proofs.BuiltinGlobals
import LevelScript.Proofs.CallIsolation
import LevelScript.Proofs.CallOutcomes
import LevelScript.Proofs.ClearedScopes
import LevelScript.Proofs.CommandSteps
import LevelScript.Proofs.Computation
import LevelScript.Proofs.Congruence
import LevelScript.Proofs.Contract
import LevelScript.Proofs.DeclaredFunctions
import LevelScript.Proofs.DeclaredTypes
import LevelScript.Proofs.DefaultArguments
import LevelScript.Proofs.Division
import LevelScript.Proofs.EffectiveArguments
import LevelScript.Proofs.ErrorValues
import LevelScript.Proofs.Estates
import LevelScript.Proofs.Evolution
import LevelScript.Proofs.ExpressionContract
import LevelScript.Proofs.ExpressionRoundTrip
import LevelScript.Proofs.FailedAssignments
import LevelScript.Proofs.FaultPlaces
import LevelScript.Proofs.Frames
import LevelScript.Proofs.FunctionListing
import LevelScript.Proofs.GeneratorCalls
import LevelScript.Proofs.HostCalls
import LevelScript.Proofs.HostFailures
import LevelScript.Proofs.Hosting
import LevelScript.Proofs.IntactRuns
import LevelScript.Proofs.Judgement
import LevelScript.Proofs.LastErrors
import LevelScript.Proofs.ListOwners
import LevelScript.Proofs.LoadingOrder
import LevelScript.Proofs.MergedArguments
import LevelScript.Proofs.NamedArguments
import LevelScript.Proofs.NumberRange
import LevelScript.Proofs.NumberTexts
import LevelScript.Proofs.Outlines
import LevelScript.Proofs.ParsedAnchors
import LevelScript.Proofs.ParsedNodes
import LevelScript.Proofs.ParsingProgress
import LevelScript.Proofs.ParsingTermination
import LevelScript.Proofs.Placed
import LevelScript.Proofs.PlainValues
import LevelScript.Proofs.Positions
import LevelScript.Proofs.QuotedLines
import LevelScript.Proofs.QuotedTexts
import LevelScript.Proofs.RecordReading
import LevelScript.Proofs.RecordRoundTrip
import LevelScript.Proofs.RefusalPlace
import LevelScript.Proofs.Registry
import LevelScript.Proofs.Repetition
import LevelScript.Proofs.Respacing
import LevelScript.Proofs.Restoration
import LevelScript.Proofs.RetainedGlobals
import LevelScript.Proofs.ReturnSignal
import LevelScript.Proofs.Routine
import LevelScript.Proofs.Scanning
import LevelScript.Proofs.ScopingModes
import LevelScript.Proofs.ScopingSessions
import LevelScript.Proofs.ScriptRoundTrip
import LevelScript.Proofs.ShortestDecimals
import LevelScript.Proofs.Slots
import LevelScript.Proofs.SourceLines
import LevelScript.Proofs.SourceTiling
import LevelScript.Proofs.Spelling
import LevelScript.Proofs.StackDiscipline
import LevelScript.Proofs.StatementContract
import LevelScript.Proofs.StaticTypes
import LevelScript.Proofs.SteadyExpressions
import LevelScript.Proofs.Structured
import LevelScript.Proofs.TreeOutlines
import LevelScript.Proofs.TypedFrames
import LevelScript.Proofs.ValueFailures
import LevelScript.Proofs.ValuesInUse
import LevelScript.Proofs.Watched
import LevelScript.Script
import LevelScript.Syntax.Grammar
import LevelScript.Syntax.Lexeme
import LevelScript.Syntax.Shape
import LevelScript.Syntax.Span
import LevelScript.Syntax.Token
import LevelScript.Syntax.Tree
import LevelScript.Text.Basic
import LevelScript.Text.Quoted
import LevelScript.Ty
import LevelScript.Value.Arithmetic
import LevelScript.Value.Basic
import LevelScript.Value.Cast
import LevelScript.Value.Text
import LevelScript.Workspace
