import RecordPipeline.Eval
import RecordPipeline.Eval.Access
import RecordPipeline.Eval.Arithmetic
import RecordPipeline.Eval.Error
import RecordPipeline.Eval.Function
import RecordPipeline.Eval.Method
import RecordPipeline.Expr
import RecordPipeline.Expr.Lowering
import RecordPipeline.Expr.Printer
import RecordPipeline.Fault
import RecordPipeline.Json.Document
import RecordPipeline.Json.Printer
import RecordPipeline.Json.Reader
import RecordPipeline.Main
import RecordPipeline.Number.Binary64
import RecordPipeline.Number.Decimal
import RecordPipeline.Number.DecimalLibrary
import RecordPipeline.Number.Powers
import RecordPipeline.Number.Reading
import RecordPipeline.Number.Rounding
import RecordPipeline.Number.Shortest
import RecordPipeline.Pipeline
import RecordPipeline.Pipeline.Compiler
import RecordPipeline.Platform
import RecordPipeline.Platform.Reference
import RecordPipeline.Proofs.Compiler.Appending
import RecordPipeline.Proofs.Compiler.ErrorPlaces
import RecordPipeline.Proofs.Compiler.Inference
import RecordPipeline.Proofs.Compiler.Layout
import RecordPipeline.Proofs.Compiler.Operations
import RecordPipeline.Proofs.Compiler.Parameters
import RecordPipeline.Proofs.Compiler.Parts
import RecordPipeline.Proofs.Compiler.Shorthands
import RecordPipeline.Proofs.Compiler.Spellings
import RecordPipeline.Proofs.Compiler.Splitting
import RecordPipeline.Proofs.Compiler.StageCalls
import RecordPipeline.Proofs.Compiler.Trailers
import RecordPipeline.Proofs.Grammar
import RecordPipeline.Proofs.Grammar.Acceptance
import RecordPipeline.Proofs.Grammar.Completeness
import RecordPipeline.Proofs.Grammar.Correspondence
import RecordPipeline.Proofs.Grammar.Cursor
import RecordPipeline.Proofs.Grammar.Layout
import RecordPipeline.Proofs.Grammar.Lowering
import RecordPipeline.Proofs.Grammar.Offsets
import RecordPipeline.Proofs.Grammar.Places
import RecordPipeline.Proofs.Grammar.Recording
import RecordPipeline.Proofs.Grammar.Respelling
import RecordPipeline.Proofs.Grammar.Soundness
import RecordPipeline.Proofs.Grammar.Steps
import RecordPipeline.Proofs.Json.Frames
import RecordPipeline.Proofs.Json.Kinds
import RecordPipeline.Proofs.Json.Reading
import RecordPipeline.Proofs.Json.RoundTrip
import RecordPipeline.Proofs.Json.Scalars
import RecordPipeline.Proofs.Json.Spelling
import RecordPipeline.Proofs.Json.Standard
import RecordPipeline.Proofs.Lexing
import RecordPipeline.Proofs.Lexing.Coverage
import RecordPipeline.Proofs.Lexing.Joining
import RecordPipeline.Proofs.Lexing.Spelling
import RecordPipeline.Proofs.Lexing.Subtrees
import RecordPipeline.Proofs.Lexing.Words
import RecordPipeline.Proofs.Lowering.Chains
import RecordPipeline.Proofs.Lowering.Faults
import RecordPipeline.Proofs.Lowering.Numbers
import RecordPipeline.Proofs.Lowering.Relations
import RecordPipeline.Proofs.Nesting.Copies
import RecordPipeline.Proofs.Nesting.Expressions
import RecordPipeline.Proofs.Nesting.Limit
import RecordPipeline.Proofs.Nesting.Sizes
import RecordPipeline.Proofs.Nesting.Trees
import RecordPipeline.Proofs.Number.Addition
import RecordPipeline.Proofs.Number.Bits
import RecordPipeline.Proofs.Number.DecimalLaws
import RecordPipeline.Proofs.Number.Decimals
import RecordPipeline.Proofs.Number.Doubles
import RecordPipeline.Proofs.Number.Library
import RecordPipeline.Proofs.Number.Literals
import RecordPipeline.Proofs.Number.Nearest
import RecordPipeline.Proofs.Number.Numeral
import RecordPipeline.Proofs.Number.Parts
import RecordPipeline.Proofs.Number.Plain
import RecordPipeline.Proofs.Number.Products
import RecordPipeline.Proofs.Number.Reading
import RecordPipeline.Proofs.Number.Rounding
import RecordPipeline.Proofs.Number.Shortest
import RecordPipeline.Proofs.Number.Signs
import RecordPipeline.Proofs.Number.Vanishing
import RecordPipeline.Proofs.Printing.Containers
import RecordPipeline.Proofs.Printing.Integers
import RecordPipeline.Proofs.Printing.Legible
import RecordPipeline.Proofs.Printing.Lists
import RecordPipeline.Proofs.Printing.Operations
import RecordPipeline.Proofs.Printing.Quoting
import RecordPipeline.Proofs.Printing.Reparsing
import RecordPipeline.Proofs.Printing.Trees
import RecordPipeline.Proofs.Printing.Written
import RecordPipeline.Proofs.Stream.Adaptors
import RecordPipeline.Proofs.Stream.Causality
import RecordPipeline.Proofs.Stream.Distances
import RecordPipeline.Proofs.Stream.Failing
import RecordPipeline.Proofs.Stream.Meaning
import RecordPipeline.Proofs.Stream.Pulling
import RecordPipeline.Proofs.Stream.Refinement
import RecordPipeline.Proofs.Stream.Slices
import RecordPipeline.Proofs.Stream.Slicing
import RecordPipeline.Proofs.Value.Canonical
import RecordPipeline.Proofs.Value.Comparison
import RecordPipeline.Proofs.Value.Defaults
import RecordPipeline.Proofs.Value.Equality
import RecordPipeline.Proofs.Value.Extremes
import RecordPipeline.Proofs.Value.Integers
import RecordPipeline.Proofs.Value.Order
import RecordPipeline.Proofs.Value.Products
import RecordPipeline.Proofs.Value.Remainder
import RecordPipeline.Proofs.Value.Shape
import RecordPipeline.Proofs.Value.Sorting
import RecordPipeline.Request
import RecordPipeline.Stream
import RecordPipeline.Stream.Adaptor
import RecordPipeline.Stream.Stage
import RecordPipeline.SyntaxTree
import RecordPipeline.SyntaxTree.Cursor
import RecordPipeline.SyntaxTree.Parser
import RecordPipeline.Text.Alphabetic
import RecordPipeline.Text.CaseTable
import RecordPipeline.Text.CharClass
import RecordPipeline.Text.CodePoints
import RecordPipeline.Text.LetterCase
import RecordPipeline.Text.Position
import RecordPipeline.Text.Quoted
import RecordPipeline.Text.Search
import RecordPipeline.Text.Visible
import RecordPipeline.Time.Age
import RecordPipeline.Time.Calendar
import RecordPipeline.Time.Instant
import RecordPipeline.Time.Timestamp
import RecordPipeline.Token
import RecordPipeline.Token.Lexer
import RecordPipeline.TokenTree
import RecordPipeline.Value
import RecordPipeline.Value.Equality
import RecordPipeline.Value.Insertion
import RecordPipeline.Value.Order
import RecordPipeline.Value.Sorting
import RecordPipeline.Value.View
