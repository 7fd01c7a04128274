import SchemaGrowth.CommandLine.Notice
import SchemaGrowth.CommandLine.Options
import SchemaGrowth.CommandLine.Request
import SchemaGrowth.CommandLine.Run
import SchemaGrowth.Definition.Canonical
import SchemaGrowth.Definition.Enumeration
import SchemaGrowth.Disk
import SchemaGrowth.Dump.Line
import SchemaGrowth.Dump.Reading
import SchemaGrowth.FileTree
import SchemaGrowth.Json
import SchemaGrowth.Keyed
import SchemaGrowth.Main
import SchemaGrowth.Migration.Change
import SchemaGrowth.Migration.Plan
import SchemaGrowth.Migration.Script
import SchemaGrowth.Migration.Statement
import SchemaGrowth.Path
import SchemaGrowth.Proofs.CommandLine.Effects
import SchemaGrowth.Proofs.Definition.Canonical
import SchemaGrowth.Proofs.Definition.Lowercase
import SchemaGrowth.Proofs.Definition.Quoting
import SchemaGrowth.Proofs.Definition.Segment
import SchemaGrowth.Proofs.Definition.Squeezing
import SchemaGrowth.Proofs.Dump.Attribution
import SchemaGrowth.Proofs.Dump.Composition
import SchemaGrowth.Proofs.Dump.Deletion
import SchemaGrowth.Proofs.Dump.History
import SchemaGrowth.Proofs.Dump.Readable
import SchemaGrowth.Proofs.Dump.Replay
import SchemaGrowth.Proofs.Dump.Rule
import SchemaGrowth.Proofs.Enumeration.Canonical
import SchemaGrowth.Proofs.Enumeration.Growth
import SchemaGrowth.Proofs.Enumeration.ReadBack
import SchemaGrowth.Proofs.FirstSeen
import SchemaGrowth.Proofs.Json.Bare
import SchemaGrowth.Proofs.Json.Delimited
import SchemaGrowth.Proofs.Migration.Accounts
import SchemaGrowth.Proofs.Migration.Comparison
import SchemaGrowth.Proofs.Migration.Contribution
import SchemaGrowth.Proofs.Migration.Convergence
import SchemaGrowth.Proofs.Migration.CreateLines
import SchemaGrowth.Proofs.Migration.Effect
import SchemaGrowth.Proofs.Migration.Influence
import SchemaGrowth.Proofs.Migration.KeptValues
import SchemaGrowth.Proofs.Migration.ListedValues
import SchemaGrowth.Proofs.Migration.Placement
import SchemaGrowth.Proofs.Migration.Recreation
import SchemaGrowth.Proofs.Migration.Restyling
import SchemaGrowth.Proofs.Migration.ScriptLines
import SchemaGrowth.Proofs.Migration.WrittenLines
import SchemaGrowth.Proofs.Schema.Edits
import SchemaGrowth.Proofs.Schema.Json
import SchemaGrowth.Proofs.Text.Enclosed
import SchemaGrowth.Proofs.Text.LineEnds
import SchemaGrowth.Proofs.Text.Lines
import SchemaGrowth.Proofs.Text.Literals
import SchemaGrowth.Proofs.Text.Lowercase
import SchemaGrowth.Proofs.Text.Pattern
import SchemaGrowth.Proofs.Text.Trim
import SchemaGrowth.Proofs.Text.Words
import SchemaGrowth.Schema.Basic
import SchemaGrowth.Schema.Json
import SchemaGrowth.Text.Basic
import SchemaGrowth.Text.Blank
import SchemaGrowth.Text.Digits
import SchemaGrowth.Text.Lines
import SchemaGrowth.Text.Lowercase
import SchemaGrowth.Text.Quoted
import SchemaGrowth.Text.Visible
import SchemaGrowth.Unicode.CaseIgnorable
import SchemaGrowth.Unicode.Cased
import SchemaGrowth.Unicode.CodeRange
import SchemaGrowth.Unicode.LowercaseMapping
