import Wavefront.Binary64
import Wavefront.Binary64.Decimal
import Wavefront.Command.Disk
import Wavefront.Command.Host
import Wavefront.Command.Options
import Wavefront.Command.Run
import Wavefront.Diagnostic
import Wavefront.Diagnostic.Code
import Wavefront.Diagnostic.Document
import Wavefront.Diagnostic.Manual
import Wavefront.Diagnostic.Terminal
import Wavefront.Drawing
import Wavefront.Elapsed
import Wavefront.Evaluation
import Wavefront.Graph
import Wavefront.Json.Document
import Wavefront.Json.Extent
import Wavefront.Json.Lexeme
import Wavefront.Json.Literal
import Wavefront.Json.Message
import Wavefront.Json.Numeral
import Wavefront.Json.Reader
import Wavefront.Json.Schema
import Wavefront.Liveness
import Wavefront.Main
import Wavefront.Name
import Wavefront.Operand
import Wavefront.Operation
import Wavefront.Operator
import Wavefront.Path
import Wavefront.Printout
import Wavefront.Program
import Wavefront.Proofs.Command.Arguments
import Wavefront.Proofs.Command.Files
import Wavefront.Proofs.Command.Frame
import Wavefront.Proofs.Command.Options
import Wavefront.Proofs.Command.Output
import Wavefront.Proofs.Command.Picture
import Wavefront.Proofs.Command.Rejection
import Wavefront.Proofs.Command.Run
import Wavefront.Proofs.Diagnostic.Coloring
import Wavefront.Proofs.Diagnostic.Flushing
import Wavefront.Proofs.Diagnostic.RoundTrip
import Wavefront.Proofs.Drawing.Contents
import Wavefront.Proofs.Drawing.Reading
import Wavefront.Proofs.Evaluation.Causes
import Wavefront.Proofs.Evaluation.DeadCode
import Wavefront.Proofs.Evaluation.Explanations
import Wavefront.Proofs.Evaluation.Meaning
import Wavefront.Proofs.Evaluation.Renaming
import Wavefront.Proofs.Evaluation.Reordering
import Wavefront.Proofs.Evaluation.Values
import Wavefront.Proofs.Evaluation.Warnings
import Wavefront.Proofs.Graph.Contents
import Wavefront.Proofs.Json.Decoding
import Wavefront.Proofs.Json.Frame
import Wavefront.Proofs.Json.Literal
import Wavefront.Proofs.Json.Members
import Wavefront.Proofs.Json.Numeral
import Wavefront.Proofs.Json.Reading
import Wavefront.Proofs.Json.Remainder
import Wavefront.Proofs.Json.Tokens
import Wavefront.Proofs.Json.Tree
import Wavefront.Proofs.Liveness.Reachability
import Wavefront.Proofs.Liveness.Renaming
import Wavefront.Proofs.Name.Bytes
import Wavefront.Proofs.Name.Renaming
import Wavefront.Proofs.Operand.Classification
import Wavefront.Proofs.Operation.Unambiguity
import Wavefront.Proofs.Program.Deletion
import Wavefront.Proofs.Program.Numbering
import Wavefront.Proofs.Program.Renaming
import Wavefront.Proofs.Program.Repetition
import Wavefront.Proofs.Request.Conversion
import Wavefront.Proofs.Request.Operand
import Wavefront.Proofs.Request.RoundTrip
import Wavefront.Proofs.Request.Spelling
import Wavefront.Proofs.Request.Transmission
import Wavefront.Proofs.Response.RoundTrip
import Wavefront.Proofs.Schedule.Accounting
import Wavefront.Proofs.Schedule.Depth
import Wavefront.Proofs.Schedule.FixedPoint
import Wavefront.Proofs.Schedule.Interleaving
import Wavefront.Proofs.Schedule.Renaming
import Wavefront.Proofs.Schedule.Renumbering
import Wavefront.Proofs.Schedule.Reordering
import Wavefront.Proofs.Schedule.Report
import Wavefront.Proofs.Schedule.Resumption
import Wavefront.Proofs.Schedule.Run
import Wavefront.Proofs.Schedule.Stages
import Wavefront.Proofs.Schedule.Trace
import Wavefront.Proofs.Schedule.Translation
import Wavefront.Proofs.Schedule.Wave
import Wavefront.Proofs.Script.Concatenation
import Wavefront.Proofs.Script.Grammar
import Wavefront.Proofs.Script.Lines
import Wavefront.Proofs.Script.Writing
import Wavefront.Proofs.Source.Detection
import Wavefront.Proofs.Store.History
import Wavefront.Proofs.Store.Order
import Wavefront.Proofs.Text.Escape
import Wavefront.Proofs.Text.Integer
import Wavefront.Proofs.Text.Lines
import Wavefront.Proofs.Text.Words
import Wavefront.Request
import Wavefront.Response
import Wavefront.Schedule
import Wavefront.Script
import Wavefront.Source
import Wavefront.Store
import Wavefront.Text.Blank
import Wavefront.Text.Hidden
import Wavefront.Text.Integer
import Wavefront.Text.Quoted
import Wavefront.Trace
import Wavefront.Value
