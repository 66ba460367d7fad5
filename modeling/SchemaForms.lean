import SchemaForms.Datum
import SchemaForms.Main
import SchemaForms.Schema.Equal
import SchemaForms.Text.Cased
import SchemaForms.Text.LowerCase
import SchemaForms.Proofs.Schema.Groups
import SchemaForms.Proofs.Schema.Tree
import SchemaForms.Proofs.Schema.Correct
import SchemaForms.Proofs.Schema.Fault
import SchemaForms.Proofs.Validation.Parts
import SchemaForms.Proofs.Validation.Steps
import SchemaForms.Proofs.Validation.Visits
import SchemaForms.Proofs.Validation.Ending
import SchemaForms.Proofs.Validation.Faults
import SchemaForms.Proofs.Validation.Descents
import SchemaForms.Proofs.Validation.Conforms
import SchemaForms.Proofs.Validation.Spelling
import SchemaForms.Proofs.Schema.Path
import SchemaForms.Proofs.Schema.Position
import SchemaForms.Proofs.Validation.Located
import SchemaForms.Proofs.Validation.Truncation
import SchemaForms.Proofs.Validation.Calls
import SchemaForms.Proofs.Validation.Nesting
import SchemaForms.Proofs.Validation.DepthLimit
import SchemaForms.Proofs.Schema.RefLoop
import SchemaForms.Proofs.Validation.Loops
import SchemaForms.Proofs.Report
import SchemaForms.Proofs.Value.Json
import SchemaForms.Proofs.Value.Keys
import SchemaForms.Proofs.Value.Proper
import SchemaForms.Proofs.Value.Showable
import SchemaForms.Proofs.Value.Reordered
import SchemaForms.Proofs.Value.Sorted
import SchemaForms.Proofs.Number.Exact
import SchemaForms.Proofs.Number.Shortest
import SchemaForms.Proofs.Number.Digits
import SchemaForms.Proofs.Number.Layout
import SchemaForms.Proofs.Value.Respelled
import SchemaForms.Proofs.Timestamp
import SchemaForms.Proofs.Schema.Keys
import SchemaForms.Proofs.Json.Reader
import SchemaForms.Proofs.Json.Scalars
import SchemaForms.Proofs.Json.RoundTrip
import SchemaForms.Proofs.Schema.Reordered
import SchemaForms.Proofs.Schema.Shape
import SchemaForms.Proofs.Schema.Misfit
import SchemaForms.Proofs.Schema.Refusal
import SchemaForms.Proofs.Schema.RoundTrip
import SchemaForms.Proofs.Schema.Aligned
import SchemaForms.Proofs.Schema.Inlined
import SchemaForms.Proofs.Schema.Edited
import SchemaForms.Proofs.Schema.Loosened
import SchemaForms.Proofs.Schema.Neglected
import SchemaForms.Proofs.Schema.Pruned
import SchemaForms.Proofs.Validation.Completion
import SchemaForms.Proofs.Validation.Comparison
import SchemaForms.Proofs.Validation.Distinct
import SchemaForms.Proofs.Validation.Strict
import SchemaForms.Proofs.Validation.Reordering
import SchemaForms.Proofs.Validation.Beside
import SchemaForms.Proofs.Validation.Moved
import SchemaForms.Proofs.Validation.Inlining
import SchemaForms.Proofs.Validation.Loosening
import SchemaForms.Proofs.Validation.Irrelevance
import SchemaForms.Proofs.Validation.Composition
import SchemaForms.Proofs.Command.ExitCode
import SchemaForms.Proofs.Command.Sorting
import SchemaForms.Proofs.Command.PlainReport
import SchemaForms.Proofs.Text.Utf8
import SchemaForms.Proofs.Document.Canonical
import SchemaForms.Proofs.Datum
import SchemaForms.Proofs.Yaml.Kinds
