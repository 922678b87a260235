import WireRecords.Analysis
import WireRecords.Cli.Arguments
import WireRecords.Cli.Run
import WireRecords.Codec.Fault
import WireRecords.Codec.Integer
import WireRecords.Codec.Read
import WireRecords.Codec.Value
import WireRecords.Codec.Varint
import WireRecords.Codec.Write
import WireRecords.Collision
import WireRecords.Compilation
import WireRecords.Diagnostic
import WireRecords.Diagnostic.Snippet
import WireRecords.Directive
import WireRecords.Directive.Concrete
import WireRecords.Directive.Expectation
import WireRecords.Directive.Parser
import WireRecords.Expansion
import WireRecords.Export
import WireRecords.Extraction
import WireRecords.Files
import WireRecords.Host.Bounds
import WireRecords.Host.Expressions
import WireRecords.Host.Grammar
import WireRecords.Host.Items
import WireRecords.Host.Member
import WireRecords.Host.Outline
import WireRecords.Host.Paths
import WireRecords.Host.Patterns
import WireRecords.Host.Reader
import WireRecords.Host.Scan
import WireRecords.Host.SourceFile
import WireRecords.Host.Statements
import WireRecords.Host.Types
import WireRecords.Journal
import WireRecords.Json
import WireRecords.Main
import WireRecords.Program.Decoding
import WireRecords.Program.Encoding
import WireRecords.Program.Fault
import WireRecords.Program.Flatten
import WireRecords.Program.Generation
import WireRecords.Program.Layout
import WireRecords.Program.Lexer
import WireRecords.Program.Lowering
import WireRecords.Program.Names
import WireRecords.Program.Printer
import WireRecords.Program.Syntax
import WireRecords.Program.Token
import WireRecords.Program.Tokens
import WireRecords.Program.Transfer
import WireRecords.Proofs.Admission
import WireRecords.Proofs.Analysis
import WireRecords.Proofs.Cli
import WireRecords.Proofs.Codec.Endless
import WireRecords.Proofs.Codec.Faults
import WireRecords.Proofs.Codec.Initial
import WireRecords.Proofs.Codec.Integer
import WireRecords.Proofs.Codec.Reading
import WireRecords.Proofs.Codec.Receiver
import WireRecords.Proofs.Codec.Reencoding
import WireRecords.Proofs.Codec.RoundTrip
import WireRecords.Proofs.Codec.Sound
import WireRecords.Proofs.Codec.StaticWidth
import WireRecords.Proofs.Codec.Success
import WireRecords.Proofs.Codec.Termination
import WireRecords.Proofs.Codec.Truncation
import WireRecords.Proofs.Codec.Unchecked
import WireRecords.Proofs.Codec.Value
import WireRecords.Proofs.Codec.Varint
import WireRecords.Proofs.Codec.Words
import WireRecords.Proofs.Commutation
import WireRecords.Proofs.Compilation
import WireRecords.Proofs.Diagnostics
import WireRecords.Proofs.Directive.Acceptance
import WireRecords.Proofs.Directive.Boundary
import WireRecords.Proofs.Directive.Complete
import WireRecords.Proofs.Directive.Extent
import WireRecords.Proofs.Directive.Grammar
import WireRecords.Proofs.Directive.Locality
import WireRecords.Proofs.Directive.Precedence
import WireRecords.Proofs.Directive.Ranges
import WireRecords.Proofs.Directive.Readers
import WireRecords.Proofs.Directive.Token
import WireRecords.Proofs.Directive.Trailing
import WireRecords.Proofs.Elision
import WireRecords.Proofs.Execution.Files
import WireRecords.Proofs.Execution.Machine
import WireRecords.Proofs.Execution.Procedures
import WireRecords.Proofs.Execution.Reading
import WireRecords.Proofs.Execution.Room
import WireRecords.Proofs.Execution.Safety
import WireRecords.Proofs.Execution.Steps
import WireRecords.Proofs.Execution.Unchecked
import WireRecords.Proofs.Execution.Writing
import WireRecords.Proofs.ExportReading
import WireRecords.Proofs.Extraction
import WireRecords.Proofs.Files
import WireRecords.Proofs.Footprint
import WireRecords.Proofs.Isolation
import WireRecords.Proofs.Json.Grammar
import WireRecords.Proofs.Json.Reader
import WireRecords.Proofs.Json.Rendering
import WireRecords.Proofs.LastDeclaration
import WireRecords.Proofs.Lines
import WireRecords.Proofs.Names
import WireRecords.Proofs.Positions
import WireRecords.Proofs.Program.Arithmetic
import WireRecords.Proofs.Program.Contents
import WireRecords.Proofs.Program.Emission
import WireRecords.Proofs.Program.Flatten
import WireRecords.Proofs.Program.Generated
import WireRecords.Proofs.Program.NormalForm
import WireRecords.Proofs.Program.Redeclaration
import WireRecords.Proofs.Program.SliceChecks
import WireRecords.Proofs.Program.Spelling
import WireRecords.Proofs.Program.Transfer
import WireRecords.Proofs.RecordWidth
import WireRecords.Proofs.Registry
import WireRecords.Proofs.Rejection
import WireRecords.Proofs.Resolver
import WireRecords.Proofs.Rules
import WireRecords.Proofs.Run
import WireRecords.Proofs.Sequencing
import WireRecords.Proofs.Session
import WireRecords.Proofs.SessionWidth
import WireRecords.Proofs.Verdict
import WireRecords.Record
import WireRecords.Registry
import WireRecords.Scalar
import WireRecords.Session
import WireRecords.Span
import WireRecords.Text.Blank
import WireRecords.Text.Columns
import WireRecords.Text.Extending
import WireRecords.Text.Identifier
import WireRecords.Text.Printable
import WireRecords.Text.Quoted
import WireRecords.TypeExpr
import WireRecords.Width
