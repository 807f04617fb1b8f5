import LintReport.CommandLine.Run
import LintReport.Main
import LintReport.Message
import LintReport.Pipeline.Plan
import LintReport.Workspace.Snapshot
import LintReport.Proofs.Text.Fields
import LintReport.Proofs.Path.Resolved
import LintReport.Proofs.Session.Effect
import LintReport.Proofs.Traversal
import LintReport.Proofs.Finding.Source
import LintReport.Proofs.Settings.Roots
import LintReport.Proofs.Pipeline.Stage
import LintReport.Proofs.Pipeline.Effect
import LintReport.Proofs.Pipeline.Agreement
import LintReport.Proofs.Pipeline.Trace
import LintReport.Proofs.Json.Grammar
import LintReport.Proofs.Text.Lines
import LintReport.Proofs.Text.Cut
import LintReport.Proofs.Output.Echoed
import LintReport.Proofs.Output.Escape
import LintReport.Proofs.Output.Annotation
import LintReport.Proofs.Output.Log
import LintReport.Proofs.Json.Settled
import LintReport.Proofs.Json.Surviving
import LintReport.Proofs.Text.Utf8
import LintReport.Proofs.Output.Transport
import LintReport.Proofs.Session.Interrupted
import LintReport.Proofs.Finding.Envelope
import LintReport.Proofs.Finding.Outcome
import LintReport.Proofs.Finding.Interrupted
import LintReport.Proofs.Pipeline.Interrupted
import LintReport.Proofs.Text.Table
import LintReport.Proofs.Number.Bounded
import LintReport.Proofs.Number.Whole
import LintReport.Proofs.Json.Bounded
import LintReport.Proofs.Json.Written
import LintReport.Proofs.Json.Kept
import LintReport.Proofs.Json.Thinned
import LintReport.Proofs.Json.Tracked
import LintReport.Proofs.Json.Excised
import LintReport.Proofs.Json.Braced
import LintReport.Proofs.Output.Excision
import LintReport.Proofs.Finding.Tolerated
import LintReport.Proofs.Finding.Excised
import LintReport.Proofs.Finding.Echoed
import LintReport.Proofs.Finding.Logged
import LintReport.Proofs.Finding.Sealed
import LintReport.Proofs.Finding.Fingerprint
import LintReport.Proofs.Finding.Represented
import LintReport.Proofs.Pipeline.Reached
import LintReport.Proofs.Report.Layout
import LintReport.Proofs.Report.Lossless
import LintReport.Proofs.Report.Tally
import LintReport.Proofs.CommandLine.Run
import LintReport.Proofs.Json.Mapped
import LintReport.Proofs.Finding.Relocated
import LintReport.Proofs.Session.Kept
import LintReport.Proofs.Pipeline.Restored
import LintReport.Proofs.Text.LetterCase
import LintReport.Proofs.Finding.Critical
import LintReport.Proofs.Settings.Loaded
import LintReport.Proofs.CommandLine.Critical
import LintReport.Proofs.CommandLine.Invalid
import LintReport.Proofs.Settings.Outranked
import LintReport.Proofs.Output.RoundTrip
import LintReport.Proofs.Output.SourceSpan
import LintReport.Proofs.Session.Alike
import LintReport.Proofs.Pipeline.Alike
import LintReport.Proofs.Settings.Diagnosed
import LintReport.Proofs.CommandLine.Verbosity
import LintReport.Proofs.CommandLine.Diagnosed
import LintReport.Proofs.Report.Ranked
import LintReport.Proofs.Finding.Applied
import LintReport.Proofs.Finding.Unreadable
import LintReport.Proofs.Finding.Inlined
import LintReport.Proofs.Text.Trimmed
import LintReport.Proofs.Path.Relative
import LintReport.Proofs.Session.Overdue
import LintReport.Proofs.Report.Table
import LintReport.Proofs.CommandLine.Tabulated
import LintReport.Proofs.Settings.Named
import LintReport.Proofs.Number.Padded
import LintReport.Proofs.Settings.Directories
import LintReport.Proofs.Settings.Padded
import LintReport.Proofs.Json.Ascii
import LintReport.Proofs.Session.Said
import LintReport.Proofs.CommandLine.Emitted
import LintReport.Proofs.Output.OnePass
import LintReport.Proofs.Output.Exhausted
import LintReport.Proofs.Output.Grammar
import LintReport.Proofs.Output.Header
