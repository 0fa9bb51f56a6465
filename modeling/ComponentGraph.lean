import ComponentGraph.Command.Arguments
import ComponentGraph.Command.Run
import ComponentGraph.Component
import ComponentGraph.Graph.Basic
import ComponentGraph.Graph.Reach
import ComponentGraph.Graph.Record
import ComponentGraph.Graph.Walk
import ComponentGraph.Image
import ComponentGraph.Json.Basic
import ComponentGraph.Json.Number
import ComponentGraph.Json.Reader
import ComponentGraph.Json.Shape
import ComponentGraph.Json.Writer
import ComponentGraph.Log
import ComponentGraph.Main
import ComponentGraph.Proofs.Table
import ComponentGraph.Package.Basic
import ComponentGraph.Package.Builder
import ComponentGraph.Package.Conversion
import ComponentGraph.Package.Forest
import ComponentGraph.Package.Result
import ComponentGraph.Purl.Basic
import ComponentGraph.Purl.Parse
import ComponentGraph.Purl.Percent
import ComponentGraph.Purl.Reading
import ComponentGraph.Purl.Url
import ComponentGraph.Report.Artifact
import ComponentGraph.Report.Assembly
import ComponentGraph.Report.Check
import ComponentGraph.Report.Load
import ComponentGraph.Session
import ComponentGraph.Table
import ComponentGraph.Text.Blank
import ComponentGraph.Text.Casing
import ComponentGraph.Text.Hex
import ComponentGraph.Text.Lowercase
import ComponentGraph.Text.Pieces
import ComponentGraph.Text.Units
import ComponentGraph.Text.Utf8
import ComponentGraph.View.Document
import ComponentGraph.View.Refs
import ComponentGraph.View.Style
import ComponentGraph.View.Summary
import ComponentGraph.View.Tree
import ComponentGraph.Proofs.Package.Index
import ComponentGraph.Proofs.Graph.Reach
import ComponentGraph.Proofs.Package.Building
import ComponentGraph.Proofs.Package.Forest
import ComponentGraph.Proofs.Graph.Embedding
import ComponentGraph.Proofs.Purl.Spelling
import ComponentGraph.Proofs.View.Document
import ComponentGraph.Proofs.Report.Assembly
import ComponentGraph.Proofs.Report.Check
import ComponentGraph.Proofs.Report.Writable
import ComponentGraph.Proofs.Package.Skipping
import ComponentGraph.Proofs.Package.Surfacing
import ComponentGraph.Proofs.Package.Replacement
import ComponentGraph.Proofs.Graph.Accounts
import ComponentGraph.Proofs.Graph.Whole
import ComponentGraph.Proofs.Package.Matching
import ComponentGraph.Proofs.Report.Accounting
import ComponentGraph.Proofs.Package.Tracing
import ComponentGraph.Proofs.Package.Likeness
import ComponentGraph.Proofs.Package.Purging
import ComponentGraph.Proofs.Graph.Places
import ComponentGraph.Proofs.View.Agreement
import ComponentGraph.Proofs.Graph.Parts
import ComponentGraph.Proofs.Report.Independence
import ComponentGraph.Proofs.Json.Schema
import ComponentGraph.Proofs.Purl.Image
import ComponentGraph.Proofs.Report.Loading
import ComponentGraph.Proofs.Report.Typing
import ComponentGraph.Proofs.Report.Failing
import ComponentGraph.Proofs.Report.Properties
import ComponentGraph.Proofs.View.Counts
import ComponentGraph.Proofs.Package.Reordering
import ComponentGraph.Proofs.Steps
import ComponentGraph.Proofs.View.Rendering
import ComponentGraph.Proofs.Package.Calling
import ComponentGraph.Proofs.View.Repeats
import ComponentGraph.Proofs.View.Unnamed
import ComponentGraph.Proofs.Purl.Percent
import ComponentGraph.Proofs.Purl.Legible
import ComponentGraph.Proofs.Purl.ImageReading
import ComponentGraph.Proofs.Purl.ImageGrammar
import ComponentGraph.Proofs.Purl.ImageCanonical
import ComponentGraph.Proofs.Purl.Qualifiers
import ComponentGraph.Proofs.Purl.FilePath
import ComponentGraph.Proofs.View.Stability
import ComponentGraph.Proofs.Package.Parents
import ComponentGraph.Proofs.Json.Number
import ComponentGraph.Proofs.Package.Keying
import ComponentGraph.Proofs.Report.Declared
import ComponentGraph.Proofs.Json.RoundTrip
import ComponentGraph.Proofs.View.Printing
import ComponentGraph.Proofs.Session
