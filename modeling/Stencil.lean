import Stencil.Catalog.Source
import Stencil.Code.Assembly
import Stencil.Code.Basic
import Stencil.Code.Generator
import Stencil.Code.Lowering
import Stencil.Code.Numbering
import Stencil.Code.Printer
import Stencil.Code.Traversal
import Stencil.Decimal.Binary
import Stencil.Decimal.Numeral
import Stencil.Dispatch.InlineCache
import Stencil.Dispatch.Invoke
import Stencil.Dispatch.Resolve
import Stencil.Expect.Chunk
import Stencil.Host.Basic
import Stencil.Host.Call
import Stencil.Host.Convert
import Stencil.Host.Interchange
import Stencil.Host.OwnMethods
import Stencil.Host.OwnTypes
import Stencil.Host.Slot
import Stencil.Json.Lexeme
import Stencil.Json.Reader
import Stencil.Library.Json
import Stencil.Library.Math
import Stencil.Library.Module
import Stencil.Library.Pattern
import Stencil.Library.Replacement
import Stencil.Library.Time
import Stencil.Machine.Arguments
import Stencil.Machine.Describe
import Stencil.Machine.Equality
import Stencil.Machine.Evaluate
import Stencil.Machine.Heap
import Stencil.Machine.Iteration
import Stencil.Machine.Job
import Stencil.Machine.Operation
import Stencil.Machine.Store
import Stencil.Machine.Universe
import Stencil.Main
import Stencil.Message.Field
import Stencil.Message.JsonForm
import Stencil.Message.JsonReader
import Stencil.Message.JsonToken
import Stencil.Message.TextForm
import Stencil.Message.TextReader
import Stencil.Message.TextToken
import Stencil.Message.Tree
import Stencil.Message.Wire
import Stencil.Numeric.Elementary
import Stencil.Pattern.Basic
import Stencil.Pattern.Parser
import Stencil.Pattern.Search
import Stencil.Program.CommandLine
import Stencil.Program.Run
import Stencil.Program.Session
import Stencil.Program.Settings
import Stencil.Proofs.Association
import Stencil.Proofs.Balance.Calls
import Stencil.Proofs.Balance.Runs
import Stencil.Proofs.Balance.Templates
import Stencil.Proofs.Catalog.Loading
import Stencil.Proofs.Catalog.Messages
import Stencil.Proofs.Catalog.Paths
import Stencil.Proofs.Chunks
import Stencil.Proofs.Counting
import Stencil.Proofs.Direct.Control
import Stencil.Proofs.Direct.Evaluation
import Stencil.Proofs.Direct.Lowering
import Stencil.Proofs.Direct.Pieces
import Stencil.Proofs.Direct.Semantics
import Stencil.Proofs.Dispatch.Exactness
import Stencil.Proofs.Dispatch.History
import Stencil.Proofs.Dispatch.Interleaving
import Stencil.Proofs.Dispatch.Shape
import Stencil.Proofs.Dispatch.Statistics
import Stencil.Proofs.Dispatch.Transparency
import Stencil.Proofs.Equality.Comparison
import Stencil.Proofs.Equality.Order
import Stencil.Proofs.Equality.Trees
import Stencil.Proofs.Float
import Stencil.Proofs.Generation
import Stencil.Proofs.Generation.Acceptance
import Stencil.Proofs.Generation.Effect
import Stencil.Proofs.Generation.Simulation
import Stencil.Proofs.Generation.Stack
import Stencil.Proofs.Globals.Functions
import Stencil.Proofs.Globals.Histories
import Stencil.Proofs.Globals.Settled
import Stencil.Proofs.Host.Assignment
import Stencil.Proofs.Host.Enumeration
import Stencil.Proofs.Host.Places
import Stencil.Proofs.Host.Reading
import Stencil.Proofs.Json.Grammar
import Stencil.Proofs.Json.Reading
import Stencil.Proofs.Json.Strings
import Stencil.Proofs.Json.Values
import Stencil.Proofs.Json.Words
import Stencil.Proofs.Literal.Evaluation
import Stencil.Proofs.Literal.Plain
import Stencil.Proofs.Literal.Reading
import Stencil.Proofs.Loops.Course
import Stencil.Proofs.Loops.Search
import Stencil.Proofs.Loops.Sequence
import Stencil.Proofs.Machine.Aligned
import Stencil.Proofs.Machine.Exits
import Stencil.Proofs.Machine.Forms
import Stencil.Proofs.Machine.Inside
import Stencil.Proofs.Machine.Manners
import Stencil.Proofs.Machine.Notes
import Stencil.Proofs.Machine.Passage
import Stencil.Proofs.Machine.Reach
import Stencil.Proofs.Machine.Runs
import Stencil.Proofs.Machine.Script
import Stencil.Proofs.Machine.Service
import Stencil.Proofs.Machine.Trail
import Stencil.Proofs.Machine.Twin
import Stencil.Proofs.Machine.Way
import Stencil.Proofs.Manners.Host
import Stencil.Proofs.Manners.Library
import Stencil.Proofs.Marks
import Stencil.Proofs.Message.Integers
import Stencil.Proofs.Nearest
import Stencil.Proofs.Nodes
import Stencil.Proofs.Notes.Calls
import Stencil.Proofs.Notes.Coverage
import Stencil.Proofs.Notes.Lowering
import Stencil.Proofs.Notes.Positions
import Stencil.Proofs.Notes.Runs
import Stencil.Proofs.Printing
import Stencil.Proofs.Range
import Stencil.Proofs.Repetition
import Stencil.Proofs.Replacement
import Stencil.Proofs.Safety.Code
import Stencil.Proofs.Safety.Jumps
import Stencil.Proofs.Safety.Runs
import Stencil.Proofs.Scope.Agreement
import Stencil.Proofs.Scope.Regions
import Stencil.Proofs.Scope.Resolved
import Stencil.Proofs.Scope.Rules
import Stencil.Proofs.Scoped
import Stencil.Proofs.Session
import Stencil.Proofs.Source.Cut
import Stencil.Proofs.Source.Lexing
import Stencil.Proofs.Source.Modes
import Stencil.Proofs.Source.Partition
import Stencil.Proofs.Source.Progress
import Stencil.Proofs.Source.Templates
import Stencil.Proofs.Syntax.Cut.Readers
import Stencil.Proofs.Syntax.Cut.Steps
import Stencil.Proofs.Syntax.Derivation.Expressions
import Stencil.Proofs.Syntax.Derivation.Statements
import Stencil.Proofs.Syntax.Grammar
import Stencil.Proofs.Syntax.Language
import Stencil.Proofs.Syntax.Lexemes
import Stencil.Proofs.Syntax.Printer
import Stencil.Proofs.Syntax.Progress.Readers
import Stencil.Proofs.Syntax.Progress.Rounds
import Stencil.Proofs.Syntax.Reading
import Stencil.Proofs.Syntax.Recognition.Phrases
import Stencil.Proofs.Syntax.Recognition.Steps
import Stencil.Proofs.Syntax.Spelling
import Stencil.Proofs.Syntax.TopLevel
import Stencil.Proofs.Text.Pieces
import Stencil.Proofs.Text.Quoted
import Stencil.Proofs.Text.Utf8
import Stencil.Proofs.Typing.Judgement
import Stencil.Proofs.Typing.Lowering
import Stencil.Proofs.Unfolding
import Stencil.Proofs.Verbatim
import Stencil.Sample.Host
import Stencil.Sample.TypeName
import Stencil.Schema.Descriptor
import Stencil.Schema.DescriptorSet
import Stencil.Schema.Standard
import Stencil.Scope.Resolution
import Stencil.Source.Lexer
import Stencil.Source.Position
import Stencil.Source.Token
import Stencil.Syntax.Operator
import Stencil.Syntax.Outline
import Stencil.Syntax.Parser
import Stencil.Syntax.Tree
import Stencil.Text.Base64
import Stencil.Text.Bytes
import Stencil.Text.Case
import Stencil.Text.Category
import Stencil.Text.Quoted
import Stencil.Text.Script
import Stencil.Text.Spelling
import Stencil.Time.Calendar
import Stencil.Time.Reading
import Stencil.Value.Basic
import Stencil.Value.HostType
import Stencil.Value.Native
import Stencil.Yaml.Decode
import Stencil.Yaml.Node
import Stencil.Yaml.Scalar
import Stencil.Yaml.Scanner
