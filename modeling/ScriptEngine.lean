import ScriptEngine.Engine.Basic
import ScriptEngine.Engine.Config
import ScriptEngine.Evaluation.Call
import ScriptEngine.Evaluation.Coercion
import ScriptEngine.Evaluation.Expression
import ScriptEngine.Evaluation.Hoisting
import ScriptEngine.Evaluation.Natives
import ScriptEngine.Evaluation.Statement
import ScriptEngine.Heap.Basic
import ScriptEngine.Heap.Native
import ScriptEngine.Heap.Object
import ScriptEngine.Heap.Snapshot
import ScriptEngine.Json.Library
import ScriptEngine.Json.Quoted
import ScriptEngine.Json.Reader
import ScriptEngine.Json.Structs
import ScriptEngine.Machine
import ScriptEngine.Numeric.Binary64
import ScriptEngine.Numeric.Decimal
import ScriptEngine.Numeric.Integer
import ScriptEngine.Numeric.Digits
import ScriptEngine.Numeric.Numeral
import ScriptEngine.Numeric.Reading
import ScriptEngine.Numeric.Shortest
import ScriptEngine.Prelude
import ScriptEngine.Proofs.Evaluation.Admission
import ScriptEngine.Proofs.Evaluation.ArrayForm
import ScriptEngine.Proofs.Evaluation.Bindings
import ScriptEngine.Proofs.Evaluation.Capture
import ScriptEngine.Proofs.Evaluation.CompoundForms
import ScriptEngine.Proofs.Evaluation.Congruence
import ScriptEngine.Proofs.Evaluation.Contract
import ScriptEngine.Proofs.Evaluation.DeadZone
import ScriptEngine.Proofs.Evaluation.Enclosure
import ScriptEngine.Proofs.Evaluation.ExtraScope
import ScriptEngine.Proofs.Evaluation.FunctionSource
import ScriptEngine.Proofs.Evaluation.Grounding
import ScriptEngine.Proofs.Evaluation.Hoisting
import ScriptEngine.Proofs.Evaluation.InternalFailures
import ScriptEngine.Proofs.Evaluation.Invariant
import ScriptEngine.Proofs.Evaluation.Jumps
import ScriptEngine.Proofs.Evaluation.Lookalike
import ScriptEngine.Proofs.Evaluation.Monitor
import ScriptEngine.Proofs.Evaluation.Permanence
import ScriptEngine.Proofs.Evaluation.Prelude
import ScriptEngine.Proofs.Evaluation.Relocation
import ScriptEngine.Proofs.Evaluation.Rounds
import ScriptEngine.Proofs.Evaluation.Sealing
import ScriptEngine.Proofs.Evaluation.StackDiscipline
import ScriptEngine.Proofs.Evaluation.Surfacing
import ScriptEngine.Proofs.Evaluation.Switch
import ScriptEngine.Proofs.Evaluation.Tandem
import ScriptEngine.Proofs.Evaluation.TandemExpressions
import ScriptEngine.Proofs.Evaluation.TandemNatives
import ScriptEngine.Proofs.Evaluation.TandemStatements
import ScriptEngine.Proofs.Evaluation.Termination
import ScriptEngine.Proofs.Evaluation.Traversal
import ScriptEngine.Proofs.Evaluation.VarScope
import ScriptEngine.Proofs.Heap.Arrays
import ScriptEngine.Proofs.Heap.IndexKeys
import ScriptEngine.Proofs.Layout.EndOfInput
import ScriptEngine.Proofs.Layout.Grammar
import ScriptEngine.Proofs.Layout.Independence
import ScriptEngine.Proofs.Layout.Programs
import ScriptEngine.Proofs.Layout.Reading
import ScriptEngine.Proofs.Layout.Runs
import ScriptEngine.Proofs.Numeric.Encoding
import ScriptEngine.Proofs.Numeric.Literals
import ScriptEngine.Proofs.Numeric.ReadingBack
import ScriptEngine.Proofs.Numeric.Reduction
import ScriptEngine.Proofs.Numeric.Rounding
import ScriptEngine.Proofs.Numeric.ShortestDigits
import ScriptEngine.Proofs.Numeric.Spelling
import ScriptEngine.Proofs.Syntax.Concatenation
import ScriptEngine.Proofs.Syntax.Diagnostics
import ScriptEngine.Proofs.Syntax.FunctionText
import ScriptEngine.Proofs.Syntax.Levels
import ScriptEngine.Proofs.Syntax.Locality
import ScriptEngine.Proofs.Syntax.MirroredExpressions
import ScriptEngine.Proofs.Syntax.MirroredStatements
import ScriptEngine.Proofs.Syntax.Overlap
import ScriptEngine.Proofs.Syntax.Placement
import ScriptEngine.Proofs.Syntax.Precedence
import ScriptEngine.Proofs.Syntax.ProgramFunctions
import ScriptEngine.Proofs.Syntax.Provenance
import ScriptEngine.Proofs.Syntax.Relocation
import ScriptEngine.Proofs.Syntax.Rereading
import ScriptEngine.Proofs.Syntax.RoundTrip
import ScriptEngine.Proofs.Syntax.Run
import ScriptEngine.Proofs.Syntax.Tiling
import ScriptEngine.Proofs.Syntax.Window
import ScriptEngine.Proofs.Syntax.Words
import ScriptEngine.Proofs.Text.Lines
import ScriptEngine.Proofs.Text.Utf8
import ScriptEngine.Proofs.Token.ByteScan
import ScriptEngine.Proofs.Token.Characters
import ScriptEngine.Proofs.Token.Lexemes
import ScriptEngine.Proofs.Token.LexicalGrammar
import ScriptEngine.Proofs.Token.LongestMatch
import ScriptEngine.Proofs.Token.Positions
import ScriptEngine.Proofs.Token.Rescanning
import ScriptEngine.Proofs.Token.Respelling
import ScriptEngine.Proofs.Token.Streams
import ScriptEngine.Scope
import ScriptEngine.Syntax.Entries
import ScriptEngine.Syntax.Expression
import ScriptEngine.Syntax.Functions
import ScriptEngine.Syntax.Loops
import ScriptEngine.Syntax.Nesting
import ScriptEngine.Syntax.Outline
import ScriptEngine.Syntax.Parse
import ScriptEngine.Syntax.Parts
import ScriptEngine.Syntax.Print
import ScriptEngine.Syntax.Program
import ScriptEngine.Syntax.Same
import ScriptEngine.Syntax.Shape
import ScriptEngine.Syntax.Statement
import ScriptEngine.Syntax.Tree
import ScriptEngine.Syntax.Writes
import ScriptEngine.SyntaxError
import ScriptEngine.Text.CharSet
import ScriptEngine.Text.CaseTable
import ScriptEngine.Text.Casing
import ScriptEngine.Text.Printable
import ScriptEngine.Text.Source
import ScriptEngine.Text.Span
import ScriptEngine.Text.Units
import ScriptEngine.Text.Utf8
import ScriptEngine.Token.Basic
import ScriptEngine.Token.Keyword
import ScriptEngine.Token.Scan
import ScriptEngine.Token.Slice
import ScriptEngine.Token.Stream
import ScriptEngine.Token.Symbol
import ScriptEngine.Value
import ScriptEngine.Proofs.Syntax.Steps
import ScriptEngine.Proofs.Evaluation.LooseEquality
import ScriptEngine.Proofs.Evaluation.ScopeStore
import ScriptEngine.Proofs.Syntax.Progress
import ScriptEngine.Proofs.Token.StringBytes
import ScriptEngine.Proofs.Token.StringLiterals
import ScriptEngine.Proofs.Numeric.ExactValues
import ScriptEngine.Proofs.Evaluation.WordOperators
import ScriptEngine.Proofs.Evaluation.Positions
import ScriptEngine.Proofs.Evaluation.Joining
import ScriptEngine.Proofs.Token.NumberTokens
import ScriptEngine.Proofs.Numeric.LeadingNumbers
import ScriptEngine.Proofs.Heap.ComputedKeys
import ScriptEngine.Proofs.Evaluation.StringUnits
import ScriptEngine.Proofs.Evaluation.PrototypeChains
import ScriptEngine.Proofs.Evaluation.SliceBounds
import ScriptEngine.Proofs.Engine.Settings
