import TypedOps.Api.Heredoc
import TypedOps.Api.Override
import TypedOps.Api.Schema
import TypedOps.Api.Store
import TypedOps.Catalog.Construct
import TypedOps.Catalog.DataType
import TypedOps.Catalog.Schema
import TypedOps.Catalog.Signature
import TypedOps.Emit.Binding
import TypedOps.Emit.Comment
import TypedOps.Emit.Docstring
import TypedOps.Emit.Line
import TypedOps.Emit.Method
import TypedOps.Emit.Module
import TypedOps.Emit.Naming
import TypedOps.Files.Path
import TypedOps.Files.Tree
import TypedOps.Layout.Arguments
import TypedOps.Layout.BlankLines
import TypedOps.Layout.Format
import TypedOps.Layout.Header
import TypedOps.Layout.Scan
import TypedOps.Layout.Wrap
import TypedOps.Main
import TypedOps.Message.Field
import TypedOps.Message.Reader
import TypedOps.Message.Token
import TypedOps.Message.Wire
import TypedOps.Number.Decimal
import TypedOps.Number.Floating
import TypedOps.Number.Literal
import TypedOps.Number.MachineInt
import TypedOps.Operation.Basic
import TypedOps.Operation.Classification
import TypedOps.Operation.Default
import TypedOps.Operation.Surface
import TypedOps.Operation.TypeTag
import TypedOps.Proofs.Api.Store
import TypedOps.Proofs.Emit.Accounting
import TypedOps.Proofs.Emit.CodeLines
import TypedOps.Proofs.Emit.CodeMarkers
import TypedOps.Proofs.Emit.DocLines
import TypedOps.Proofs.Emit.Escape
import TypedOps.Proofs.Emit.Marks
import TypedOps.Proofs.Emit.Method
import TypedOps.Proofs.Emit.Order
import TypedOps.Proofs.Emit.Untripled
import TypedOps.Proofs.Layout.Arguments
import TypedOps.Proofs.Layout.BlankLines
import TypedOps.Proofs.Layout.DocstringMarks
import TypedOps.Proofs.Layout.Locality
import TypedOps.Proofs.Layout.Lossless
import TypedOps.Proofs.Layout.Scan
import TypedOps.Proofs.Operation.Surface
import TypedOps.Proofs.Run.CatalogOrder
import TypedOps.Proofs.Support.Except
import TypedOps.Proofs.Text.Order
import TypedOps.Proofs.Text.Pieces
import TypedOps.Proofs.Text.Plain
import TypedOps.Proofs.Text.QuoteRuns
import TypedOps.Proofs.Text.Quoted
import TypedOps.Proofs.Text.Spells
import TypedOps.Proofs.Value
import TypedOps.Run.CommandLine
import TypedOps.Run.Generator
import TypedOps.Run.Session
import TypedOps.Text.Alphanumeric
import TypedOps.Text.Basic
import TypedOps.Text.Blank
import TypedOps.Text.CharacterName
import TypedOps.Text.Escape
import TypedOps.Text.LetterCase
import TypedOps.Text.Printable
import TypedOps.Text.Quoted
import TypedOps.Text.Ranges
import TypedOps.Text.Utf8
import TypedOps.Value
import TypedOps.Proofs.Text.TripleQuoted
import TypedOps.Proofs.Emit.DocstringValue
import TypedOps.Proofs.Message.Token
import TypedOps.Proofs.Text.Utf8
import TypedOps.Proofs.Message.Reads
import TypedOps.Proofs.Api.Heredoc
import TypedOps.Proofs.Api.Override
import TypedOps.Proofs.Api.LastWriter
import TypedOps.Proofs.Api.DistinctNames
import TypedOps.Proofs.Emit.Unmapped
import TypedOps.Proofs.Files.Tree
import TypedOps.Proofs.Files.Atomic
import TypedOps.Proofs.Run.Inputs
import TypedOps.Proofs.Run.AllOrNothing
import TypedOps.Proofs.Files.NullFree
import TypedOps.Proofs.Operation.Default
import TypedOps.Proofs.Emit.Refusals
import TypedOps.Proofs.Run.Ending
import TypedOps.Proofs.Message.RoundTrip
import TypedOps.Proofs.Catalog.Storable
import TypedOps.Proofs.Catalog.RoundTrip
import TypedOps.Proofs.Message.Kept
import TypedOps.Proofs.Catalog.Kept
import TypedOps.Proofs.Emit.ParameterNames
import TypedOps.Proofs.Api.Growth
import TypedOps.Proofs.Emit.Bindings
import TypedOps.Proofs.Script.Syntax
import TypedOps.Proofs.Script.Run
import TypedOps.Proofs.Emit.Handles
import TypedOps.Proofs.Emit.Outputs
import TypedOps.Proofs.Emit.MethodNames
import TypedOps.Proofs.Emit.Fields
import TypedOps.Proofs.Emit.Uses
import TypedOps.Proofs.Emit.Parameters
import TypedOps.Proofs.Script.Rows
import TypedOps.Proofs.Emit.Blocks
import TypedOps.Proofs.Emit.LineFeeds
import TypedOps.Proofs.Emit.Writing
import TypedOps.Proofs.Operation.Classification
import TypedOps.Proofs.Layout.Spacing
import TypedOps.Proofs.Layout.WellSpaced
import TypedOps.Proofs.Layout.Wrap
import TypedOps.Proofs.Layout.Reflow
import TypedOps.Proofs.Layout.Steady
import TypedOps.Proofs.Layout.Idempotence
import TypedOps.Proofs.Layout.Shapes
import TypedOps.Proofs.Emit.AsciiNames
import TypedOps.Proofs.Layout.Statements
import TypedOps.Proofs.Layout.Signatures
import TypedOps.Proofs.Emit.Unrender
import TypedOps.Proofs.Emit.FenceState
import TypedOps.Proofs.Emit.DocTexts
import TypedOps.Proofs.Emit.Trimmed
import TypedOps.Proofs.Emit.BalancedBlocks
import TypedOps.Proofs.Api.Replay
import TypedOps.Proofs.Api.Commute
import TypedOps.Proofs.Api.Blocks
import TypedOps.Proofs.Run.Overrides
import TypedOps.Proofs.Emit.ShownDefaults
import TypedOps.Proofs.Catalog.Defaults
import TypedOps.Proofs.Value.Tokens
import TypedOps.Proofs.Value.Literals
import TypedOps.Proofs.Number.Grid
import TypedOps.Proofs.Number.Rounding
import TypedOps.Proofs.Number.Shortest
import TypedOps.Proofs.Number.DecimalText
import TypedOps.Proofs.Number.Neighbours
import TypedOps.Proofs.Number.SevenDigits
import TypedOps.Proofs.Operation.FloatDefaults
import TypedOps.Proofs.Message.Truncated
import TypedOps.Proofs.Catalog.Truncated
import TypedOps.Proofs.Message.WellFormed
import TypedOps.Proofs.Message.Undeclared
import TypedOps.Proofs.Catalog.Undeclared
import TypedOps.Proofs.Catalog.Unsupported
import TypedOps.Proofs.Layout.Header
import TypedOps.Proofs.Text.Separated
import TypedOps.Proofs.Emit.SnakeCase
