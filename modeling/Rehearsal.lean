import Rehearsal.Main
import Rehearsal.Proofs.Play.Deed
import Rehearsal.Proofs.Play.Resolving
import Rehearsal.Proofs.Job.Deeds
import Rehearsal.Proofs.Run.Turns
import Rehearsal.Proofs.Run.Order
import Rehearsal.Proofs.Run.Schedule
import Rehearsal.Proofs.Workflow.Needs
import Rehearsal.Proofs.Run.Cycle
import Rehearsal.Proofs.CommandLine.ExitCode
import Rehearsal.Proofs.Yaml.Distinct
import Rehearsal.Proofs.Workflow.Structure
import Rehearsal.Proofs.Play.Aside
import Rehearsal.Proofs.Step.Course
import Rehearsal.Proofs.Job.History
import Rehearsal.Proofs.Run.Consent
import Rehearsal.Proofs.Job.Success
import Rehearsal.Proofs.Run.Success
import Rehearsal.Proofs.Number.Rounded
import Rehearsal.Proofs.Condition.Evaluation
import Rehearsal.Proofs.Condition.Decided
import Rehearsal.Proofs.Condition.Unrecorded
import Rehearsal.Proofs.Condition.Spliced
import Rehearsal.Proofs.Run.Ends
import Rehearsal.Proofs.Run.Memory
import Rehearsal.Proofs.Run.Current
import Rehearsal.Proofs.Number.Plain
import Rehearsal.Proofs.Expression.Exact
import Rehearsal.Proofs.Variable.JobOutput
import Rehearsal.Proofs.Expression.Literal
import Rehearsal.Proofs.Text.Cut
import Rehearsal.Proofs.Secrets.Masked
import Rehearsal.Proofs.Play.Alike
import Rehearsal.Proofs.Job.Alike
import Rehearsal.Proofs.Job.Separate
import Rehearsal.Proofs.Secrets.Logged
import Rehearsal.Proofs.Json.Characters
import Rehearsal.Proofs.Json.Restored
import Rehearsal.Proofs.Variable.Decoded
import Rehearsal.Proofs.Step.Given
import Rehearsal.Proofs.Matrix.Listed
import Rehearsal.Proofs.Matrix.Trip
import Rehearsal.Proofs.Play.Ordinary
import Rehearsal.Proofs.Play.Maintained
import Rehearsal.Proofs.Step.Maintained
import Rehearsal.Proofs.Job.Maintained
import Rehearsal.Proofs.Run.Closing
import Rehearsal.Proofs.Run.DryRun
import Rehearsal.Proofs.Run.Quit
import Rehearsal.Proofs.Job.Opening
import Rehearsal.Proofs.Run.Results
import Rehearsal.Proofs.Job.Stages
import Rehearsal.Proofs.Variable.StepOutput
import Rehearsal.Proofs.Job.Seen
import Rehearsal.Proofs.Run.Shared
import Rehearsal.Proofs.Context.Lookup
import Rehearsal.Proofs.Step.Frame
import Rehearsal.Proofs.Run.Exports
import Rehearsal.Proofs.Job.Concluded
import Rehearsal.Proofs.Run.Modes
import Rehearsal.Proofs.Play.Mirrors
import Rehearsal.Proofs.Play.Preview
import Rehearsal.Proofs.Step.Preview
import Rehearsal.Proofs.Job.Preview
import Rehearsal.Proofs.Run.Preview
import Rehearsal.Proofs.Condition.Checked
import Rehearsal.Proofs.Matrix.Expansion
import Rehearsal.Proofs.Condition.Early
import Rehearsal.Proofs.Variable.Known
import Rehearsal.Proofs.Variable.Unasked
import Rehearsal.Proofs.Matrix.Given
import Rehearsal.Proofs.Condition.JsonAlike
import Rehearsal.Proofs.Step.Readers
import Rehearsal.Proofs.Expression.Wrapping
import Rehearsal.Proofs.Condition.Wrapped
import Rehearsal.Proofs.Condition.Repeated
import Rehearsal.Proofs.Text.Overlap
import Rehearsal.Proofs.Secrets.Order
import Rehearsal.Proofs.Action.Version
import Rehearsal.Proofs.Run.Readings
import Rehearsal.Proofs.Step.Variables
import Rehearsal.Proofs.Text.Encoded
import Rehearsal.Proofs.Step.Written
import Rehearsal.Proofs.Action.Registry
import Rehearsal.Proofs.Play.Menu
import Rehearsal.Proofs.Run.Menus
import Rehearsal.Proofs.Step.Mocked
import Rehearsal.Proofs.Step.Shown
import Rehearsal.Proofs.Secrets.Nested
import Rehearsal.Proofs.Run.Summary
import Rehearsal.Proofs.Value.Comparison
import Rehearsal.Proofs.Expression.Leaves
import Rehearsal.Proofs.Expression.Quoting
import Rehearsal.Proofs.Expression.Covered
import Rehearsal.Proofs.Command.Quoting
