import SourceComments.Automaton
import SourceComments.Command.Arguments
import SourceComments.Command.Run
import SourceComments.Comment
import SourceComments.Config
import SourceComments.Config.Discovery
import SourceComments.Config.Reader
import SourceComments.FileTree
import SourceComments.Findings
import SourceComments.Glob.Expand
import SourceComments.Glob.Match
import SourceComments.Glob.Pattern
import SourceComments.Issue
import SourceComments.Json.Basic
import SourceComments.Json.Mismatch
import SourceComments.Json.Printer
import SourceComments.Json.Reader
import SourceComments.Json.Skip
import SourceComments.Json.Strings
import SourceComments.Language
import SourceComments.Main
import SourceComments.Notice
import SourceComments.Path
import SourceComments.Report
import SourceComments.Segment
import SourceComments.Selection
import SourceComments.Survey
import SourceComments.Table
import SourceComments.Text.Invisible
import SourceComments.Text.LineIndex
import SourceComments.Text.Quoted
import SourceComments.Text.Style
import SourceComments.Text.Utf8
import SourceComments.Proofs.Closer
import SourceComments.Proofs.Grammar
import SourceComments.Proofs.Lines
import SourceComments.Proofs.Segment.Grammar
import SourceComments.Proofs.Pattern
import SourceComments.Proofs.Segment.Pattern
import SourceComments.Proofs.Automaton.Lexeme
import SourceComments.Proofs.Automaton.Run
import SourceComments.Proofs.Placement
import SourceComments.Proofs.Agreement
import SourceComments.Proofs.Shielding
import SourceComments.Proofs.Path
import SourceComments.Proofs.FileTree
import SourceComments.Proofs.Discovery
import SourceComments.Proofs.Glob
import SourceComments.Proofs.Selection
import SourceComments.Proofs.ByteOrder
import SourceComments.Proofs.Way
import SourceComments.Proofs.Table
import SourceComments.Proofs.Walk
import SourceComments.Proofs.Issue
import SourceComments.Proofs.Survey
import SourceComments.Proofs.Selection.Exact
import SourceComments.Proofs.Glob.Pieces
import SourceComments.Proofs.Validation
import SourceComments.Proofs.Glob.Spelling
import SourceComments.Proofs.Selection.Distinct
import SourceComments.Proofs.Config.RoundTrip
import SourceComments.Proofs.Command.Scan
import SourceComments.Proofs.Command.Extract
import SourceComments.Proofs.FileTree.Addition
import SourceComments.Proofs.Command.Init
import SourceComments.Proofs.Composition
import SourceComments.Proofs.Survey.Arrival
import SourceComments.Proofs.Json.Decoding
import SourceComments.Proofs.Report.Document
import SourceComments.Proofs.Closing
import SourceComments.Proofs.Rendering
import SourceComments.Proofs.Discovery.Ascent
import SourceComments.Proofs.Json.Skipping
import SourceComments.Proofs.Config.Settings
import SourceComments.Proofs.Glob.Enclosure
import SourceComments.Proofs.Selection.Dependencies
import SourceComments.Proofs.Config.Mapping
import SourceComments.Proofs.Report.Escaping
import SourceComments.Proofs.Report.Listing
import SourceComments.Proofs.Command.Narration
import SourceComments.Proofs.Lines.Bytes
import SourceComments.Proofs.Automaton.Memory
import SourceComments.Proofs.Report.Colors
