import MeshMarkup.CommandLine.Arguments
import MeshMarkup.CommandLine.Command
import MeshMarkup.CommandLine.Report
import MeshMarkup.CommandLine.Run
import MeshMarkup.CommandLine.Usage
import MeshMarkup.Document.Grammar
import MeshMarkup.Document.Node
import MeshMarkup.Document.Printer
import MeshMarkup.Document.Query
import MeshMarkup.Document.Traversal
import MeshMarkup.Files.Path
import MeshMarkup.Files.Store
import MeshMarkup.Files.View
import MeshMarkup.Json.Reader
import MeshMarkup.Json.Value
import MeshMarkup.Json.Writer
import MeshMarkup.Loading.Diagnostic
import MeshMarkup.Loading.Log
import MeshMarkup.Loading.Metrics
import MeshMarkup.Loading.Result
import MeshMarkup.Loading.Session
import MeshMarkup.Loading.Stages
import MeshMarkup.Machine
import MeshMarkup.Main
import MeshMarkup.Mesh.Extraction
import MeshMarkup.Mesh.Model
import MeshMarkup.Mesh.Packing
import MeshMarkup.Number.Binary64
import MeshMarkup.Number.Estimate
import MeshMarkup.Number.Magnitude
import MeshMarkup.Number.Numeral
import MeshMarkup.Number.Shortest
import MeshMarkup.Parser.Basic
import MeshMarkup.Parser.Cursor
import MeshMarkup.Parser.Expression
import MeshMarkup.Parser.Lexical
import MeshMarkup.Parser.Literal
import MeshMarkup.Parser.Number
import MeshMarkup.Parser.Value
import MeshMarkup.Settings.Basic
import MeshMarkup.Settings.Override
import MeshMarkup.Settings.Section
import MeshMarkup.Settings.Severity
import MeshMarkup.Text.Blank
import MeshMarkup.Text.Encoding
import MeshMarkup.Text.Integer
import MeshMarkup.Text.Printable
import MeshMarkup.Text.Quoted
import MeshMarkup.Text.Search
import MeshMarkup.Proofs.Parser.Combinators
import MeshMarkup.Proofs.Parser.Lexical
import MeshMarkup.Proofs.Parser.Repetition
import MeshMarkup.Proofs.Number.Literal
import MeshMarkup.Proofs.Parser.Number
import MeshMarkup.Proofs.Number.Rounding
import MeshMarkup.Proofs.Number.Numeral
import MeshMarkup.Proofs.Parser.Spaced
import MeshMarkup.Proofs.Document.Rendering
import MeshMarkup.Proofs.Document.Opening
import MeshMarkup.Proofs.Document.Numbers
import MeshMarkup.Proofs.Document.Productions
import MeshMarkup.Proofs.Document.Elements
import MeshMarkup.Proofs.Document.Soundness
import MeshMarkup.Proofs.Document.Completeness
import MeshMarkup.Proofs.Document.RoundTrip
import MeshMarkup.Proofs.Document.Misnaming
import MeshMarkup.Proofs.Mesh.Packing
import MeshMarkup.Proofs.Json.RoundTrip
import MeshMarkup.Proofs.Settings.RoundTrip
import MeshMarkup.Proofs.Settings.Errors
import MeshMarkup.Proofs.Loading.Stages
import MeshMarkup.Proofs.Loading.Statistics
import MeshMarkup.Proofs.Number.Nearest
import MeshMarkup.Proofs.Number.Estimate
import MeshMarkup.Proofs.Number.Longest
import MeshMarkup.Proofs.Parser.Built
import MeshMarkup.Proofs.Parser.Scientific
import MeshMarkup.Proofs.Document.Locality
import MeshMarkup.Proofs.Document.Saturation
import MeshMarkup.Proofs.Document.Nesting
import MeshMarkup.Proofs.CommandLine.Arguments
import MeshMarkup.Proofs.CommandLine.Run
import MeshMarkup.Proofs.Mesh.Slots
import MeshMarkup.Proofs.Document.NumberTexts
import MeshMarkup.Proofs.Parser.Progress
import MeshMarkup.Proofs.Parser.Chain
import MeshMarkup.Proofs.Parser.Agreement
import MeshMarkup.Proofs.Document.Termination
import MeshMarkup.Proofs.Document.Traversal
import MeshMarkup.Proofs.Document.Query
import MeshMarkup.Proofs.Mesh.Extraction
import MeshMarkup.Proofs.Settings.Overlay
import MeshMarkup.Proofs.Settings.Members
import MeshMarkup.Proofs.Parser.Moves
import MeshMarkup.Proofs.Settings.Reachable
import MeshMarkup.Proofs.Loading.Correlation
import MeshMarkup.Proofs.Loading.PackingReport
import MeshMarkup.Proofs.Json.Number
import MeshMarkup.Proofs.Json.Standard
import MeshMarkup.Proofs.Document.Weight
import MeshMarkup.Proofs.Mesh.Contents
import MeshMarkup.Proofs.Mesh.Document
import MeshMarkup.Proofs.Loading.Figures
import MeshMarkup.Proofs.CommandLine.Extract
import MeshMarkup.Proofs.Document.Path
import MeshMarkup.Proofs.Parser.Integer
