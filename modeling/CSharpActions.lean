import CSharpActions.Action.Apply
import CSharpActions.Action.Basic
import CSharpActions.Action.Report
import CSharpActions.Action.Search
import CSharpActions.Action.Select
import CSharpActions.Codegen.Constructor
import CSharpActions.Codegen.Member
import CSharpActions.Codegen.Name
import CSharpActions.CommandLine.Command
import CSharpActions.CommandLine.Error
import CSharpActions.CommandLine.Options
import CSharpActions.CommandLine.Run
import CSharpActions.Declaration.Class
import CSharpActions.Declaration.Enclosing
import CSharpActions.Declaration.Parameter
import CSharpActions.Declaration.Property
import CSharpActions.Declaration.Signature
import CSharpActions.Diff.Matching
import CSharpActions.Diff.Unified
import CSharpActions.Document
import CSharpActions.Edit
import CSharpActions.FileTree.Basic
import CSharpActions.FileTree.Error
import CSharpActions.FileTree.Find
import CSharpActions.FileTree.Path
import CSharpActions.FileTree.Pattern
import CSharpActions.Json.Basic
import CSharpActions.Json.Parser
import CSharpActions.Json.Printer
import CSharpActions.Layout.Code
import CSharpActions.Layout.Indent
import CSharpActions.Lookup
import CSharpActions.Main
import CSharpActions.Number.Binary64
import CSharpActions.Project.Manifest
import CSharpActions.Project.Namespace
import CSharpActions.Project.ProjectFile
import CSharpActions.Project.ProjectReader
import CSharpActions.Proofs.Action.Attempts
import CSharpActions.Proofs.Action.Bytes
import CSharpActions.Proofs.Action.Constructor
import CSharpActions.Proofs.Action.Cursor
import CSharpActions.Proofs.Action.DryRun
import CSharpActions.Proofs.Action.Enclosure
import CSharpActions.Proofs.Action.Execution
import CSharpActions.Proofs.Action.Formatted
import CSharpActions.Proofs.Action.Interleaving
import CSharpActions.Proofs.Action.Offer
import CSharpActions.Proofs.Action.Placement
import CSharpActions.Proofs.Action.Repetition
import CSharpActions.Proofs.Action.Reporting
import CSharpActions.Proofs.Action.Rescan
import CSharpActions.Proofs.Action.Safety
import CSharpActions.Proofs.Action.Search
import CSharpActions.Proofs.Action.Selection
import CSharpActions.Proofs.Action.Signature
import CSharpActions.Proofs.Action.Surroundings
import CSharpActions.Proofs.Action.Window
import CSharpActions.Proofs.Codegen.Constructor
import CSharpActions.Proofs.Codegen.Encoding
import CSharpActions.Proofs.Codegen.Fragment
import CSharpActions.Proofs.Codegen.Recognition
import CSharpActions.Proofs.Codegen.Rows
import CSharpActions.Proofs.Codegen.Signature
import CSharpActions.Proofs.Codegen.Undetected
import CSharpActions.Proofs.CommandLine.Agreement
import CSharpActions.Proofs.CommandLine.Persistence
import CSharpActions.Proofs.CommandLine.Reading
import CSharpActions.Proofs.Declaration.Attributes
import CSharpActions.Proofs.Declaration.Detection
import CSharpActions.Proofs.Declaration.Grammar
import CSharpActions.Proofs.Declaration.LetterCase
import CSharpActions.Proofs.Declaration.Lines
import CSharpActions.Proofs.Declaration.Names
import CSharpActions.Proofs.Declaration.Nesting
import CSharpActions.Proofs.Declaration.Occurrence
import CSharpActions.Proofs.Declaration.Ownership
import CSharpActions.Proofs.Declaration.Parameter
import CSharpActions.Proofs.Declaration.Printed
import CSharpActions.Proofs.Declaration.Quiet
import CSharpActions.Proofs.Declaration.Readers
import CSharpActions.Proofs.Declaration.Signature
import CSharpActions.Proofs.Declaration.Written
import CSharpActions.Proofs.Diff.Lines
import CSharpActions.Proofs.Document.Insertion
import CSharpActions.Proofs.Document.Line
import CSharpActions.Proofs.Document.Offset
import CSharpActions.Proofs.Document.Position
import CSharpActions.Proofs.Document.Range
import CSharpActions.Proofs.Document.Word
import CSharpActions.Proofs.Edit.Batch
import CSharpActions.Proofs.Edit.Independent
import CSharpActions.Proofs.Edit.Inserted
import CSharpActions.Proofs.Edit.Simultaneous
import CSharpActions.Proofs.FileTree.Entry
import CSharpActions.Proofs.FileTree.Search
import CSharpActions.Proofs.FileTree.WellFormed
import CSharpActions.Proofs.Json.Bounds
import CSharpActions.Proofs.Json.Document
import CSharpActions.Proofs.Json.RoundTrip
import CSharpActions.Proofs.Json.Sorted
import CSharpActions.Proofs.Json.Tokens
import CSharpActions.Proofs.Layout.Blocks
import CSharpActions.Proofs.Layout.Enclosed
import CSharpActions.Proofs.Layout.Indentation
import CSharpActions.Proofs.Layout.Outline
import CSharpActions.Proofs.Layout.Pass
import CSharpActions.Proofs.Layout.Scanning
import CSharpActions.Proofs.Layout.Sections
import CSharpActions.Proofs.Layout.Settled
import CSharpActions.Proofs.Layout.Stability
import CSharpActions.Proofs.Project.Priority
import CSharpActions.Proofs.Project.Reader
import CSharpActions.Proofs.Project.References
import CSharpActions.Proofs.Project.Segments
import CSharpActions.Proofs.Settings.Layers
import CSharpActions.Proofs.Settings.Stored
import CSharpActions.Proofs.Text.Fragment
import CSharpActions.Proofs.Text.Leftmost
import CSharpActions.Proofs.Text.Numeral
import CSharpActions.Proofs.Text.Plain
import CSharpActions.Proofs.Text.Size
import CSharpActions.Proofs.Text.Splitting
import CSharpActions.Proofs.Text.Utf8
import CSharpActions.Proofs.Workspace.Configuration
import CSharpActions.Proofs.Workspace.Layering
import CSharpActions.Proofs.Workspace.Loading
import CSharpActions.Proofs.Workspace.Replacement
import CSharpActions.Report.Clock
import CSharpActions.Report.Envelope
import CSharpActions.Report.Failure
import CSharpActions.Report.References
import CSharpActions.Report.Table
import CSharpActions.Settings
import CSharpActions.Settings.Coerce
import CSharpActions.Settings.Layers
import CSharpActions.Text.Basic
import CSharpActions.Text.Blank
import CSharpActions.Text.CodePoint
import CSharpActions.Text.ControlSequence
import CSharpActions.Text.Decimal
import CSharpActions.Text.Digit
import CSharpActions.Text.Integer
import CSharpActions.Text.LetterCase
import CSharpActions.Text.Newline
import CSharpActions.Text.Printable
import CSharpActions.Text.Quoted
import CSharpActions.Text.Ranges
import CSharpActions.Text.Size
import CSharpActions.Text.Utf8
import CSharpActions.Text.Word
import CSharpActions.Tool
import CSharpActions.Workspace.Basic
import CSharpActions.Workspace.Config
import CSharpActions.Workspace.FileSink
import CSharpActions.Workspace.Platform
import CSharpActions.Workspace.Snapshot
import CSharpActions.Xml.Doctype
import CSharpActions.Xml.Dtd
import CSharpActions.Xml.Encoding
import CSharpActions.Xml.Name
import CSharpActions.Xml.Reader
import CSharpActions.Xml.Token
import CSharpActions.Xml.Tree
