import JudgedLint.Text.WordChar
import JudgedLint.Text.Digit
import JudgedLint.Digest
import JudgedLint.Json.Reader
import JudgedLint.Json.Writer
import JudgedLint.Yaml.Value
import JudgedLint.Yaml.Printer
import JudgedLint.Workspace.Selection
import JudgedLint.Workspace.Snapshot
import JudgedLint.Settings.Basic
import JudgedLint.Log.Template
import JudgedLint.Log.Sink
import JudgedLint.Model.Retry
import JudgedLint.Model.Registry
import JudgedLint.Model.ScriptFile
import JudgedLint.Cache.Store
import JudgedLint.Failure
import JudgedLint.Lint.Matching
import JudgedLint.Lint.ConfigFile
import JudgedLint.Lint.Run
import JudgedLint.Draft.Dialogue
import JudgedLint.Report.Console
import JudgedLint.Report.Unattended
import JudgedLint.Command.Run
import JudgedLint.Main
import JudgedLint.Proofs.Cache.Disk
import JudgedLint.Proofs.Cache.Document
import JudgedLint.Proofs.Cache.Entries
import JudgedLint.Proofs.Cache.Lasting
import JudgedLint.Proofs.Lint.Atomic
import JudgedLint.Proofs.Lint.Chronicle
import JudgedLint.Proofs.Lint.Schedule
import JudgedLint.Proofs.Lint.Slots
import JudgedLint.Proofs.Cache.Roundtrip
import JudgedLint.Proofs.Cache.Mirror
import JudgedLint.Proofs.Lint.Labels
import JudgedLint.Proofs.Lint.Provenance
import JudgedLint.Proofs.Lint.Requests
import JudgedLint.Proofs.Lint.Wording
import JudgedLint.Proofs.Lint.Outcome
import JudgedLint.Proofs.Lint.Validation
import JudgedLint.Proofs.Command.Exits
import JudgedLint.Proofs.Command.Modes
import JudgedLint.Proofs.Pattern.Segments
import JudgedLint.Proofs.Lint.ConfigFaults
import JudgedLint.Proofs.Lint.Appending
import JudgedLint.Proofs.Draft.Adding
import JudgedLint.Proofs.Pattern.Groups
import JudgedLint.Proofs.Lint.Matching
import JudgedLint.Proofs.Pattern.Expansion
import JudgedLint.Proofs.Workspace.Way
import JudgedLint.Proofs.Workspace.Path
import JudgedLint.Proofs.Workspace.Selection
import JudgedLint.Proofs.Workspace.Changes
import JudgedLint.Proofs.Lint.Causes
import JudgedLint.Proofs.Json.Limits
import JudgedLint.Proofs.Cache.Loading
import JudgedLint.Proofs.Pattern.Slashes
import JudgedLint.Proofs.Workspace.Walk
import JudgedLint.Proofs.Workspace.Relisting
import JudgedLint.Proofs.Lint.Discovery
import JudgedLint.Proofs.Lint.Progress
import JudgedLint.Proofs.Lint.Shown
import JudgedLint.Proofs.Cache.Interruption
import JudgedLint.Proofs.Draft.Overwriting
import JudgedLint.Proofs.Draft.Mending
import JudgedLint.Proofs.Json.Extent
import JudgedLint.Proofs.Lint.Fencing
import JudgedLint.Proofs.Lint.Structured
