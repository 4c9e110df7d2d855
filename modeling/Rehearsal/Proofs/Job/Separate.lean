import Rehearsal.Proofs.Job.Alike

/-! Texts, job outputs, conditions of steps and matrices depend on the outputs of steps of their own
job only, and single expressions and conditions of jobs on none: `step_outputs_stay_in_their_job`.
-/

namespace Rehearsal

open Play

/-- The outputs of steps on record, by job, step and name. -/
abbrev StepOutputs := Table Scalar (Table String Outputs)

def Session.withSteps (s : Session) (steps : StepOutputs) : Session :=
  { s with context := { s.context with steps := steps } }

/-- That a play does in a session with other outputs of steps what it does in a session: it comes to
the same result or fault, adds the same events, and changes all else in the same way. The outputs
of steps it leaves as they are. -/
structure Unmoved {α : Type} (play : Play α) (s : Session) (steps : StepOutputs) : Prop where
  same : play.perform (s.withSteps steps) =
    ((play.perform s).1, (play.perform s).2.withSteps steps)
  kept : (play.perform s).2.context.steps = s.context.steps

def Share (job : Option Scalar) (steps others : StepOutputs) : Prop :=
  ∀ j, job = some j → Table.find? j steps = Table.find? j others

def Session.Differ (own steps : StepOutputs) (s t : Session) : Prop :=
  s.context.steps = own ∧ t = s.withSteps steps

theorem likens_of_share {job : Option Scalar} {own steps : StepOutputs}
    (share : Share job steps own) :
    Likens job (Session.Differ own steps) where
  resolved := by
    rintro s t ⟨-, rfl⟩
    rfl
  jobs := by
    rintro s t ⟨-, rfl⟩
    rfl
  answers := by
    rintro s t ⟨-, rfl⟩
    rfl
  secrets := by
    rintro s t ⟨-, rfl⟩
    rfl
  steps := by
    rintro s t ⟨rfl, rfl⟩ owner same step name
    simp only [Context.stepOutput?, Session.withSteps, share owner same]
  deed := by
    rintro s t d seeks ⟨rfl, rfl⟩
    cases d with
    | log level message =>
      rw [Deed.after_log, Deed.after_log]
      exact ⟨rfl, rfl⟩
    | echo | ask | register => exact ⟨rfl, rfl⟩
    | _ => exact seeks.elim
  remember := by
    rintro s t expression value ⟨rfl, rfl⟩
    exact ⟨rfl, rfl⟩

theorem unmoved_of_alike {α : Type} {play : Play α} {job : Option Scalar} {s : Session}
    {steps : StepOutputs} (share : Share job steps s.context.steps)
    (alike : ∀ {R : Session → Session → Prop}, Likens job R → Alike R play) :
    Unmoved play s steps := by
  obtain ⟨same, kept, after⟩ := (alike (likens_of_share share)).outcome ⟨rfl, rfl⟩
  exact ⟨Prod.ext same after, kept⟩

/-- Outputs of steps of other jobs change nothing for a job: not its texts, outputs, conditions of
steps and matrices. For single expressions and conditions of jobs no outputs of steps do. -/
theorem step_outputs_stay_in_their_job (s : Session) (steps : StepOutputs) :
    (∀ job, Table.find? job steps = Table.find? job s.context.steps →
      (∀ scope step text, scope.job = job → Unmoved (fill scope step text) s steps) ∧
      (∀ scope value, scope.job = job → Unmoved (resolveJobOutput scope value) s steps) ∧
      (∀ frame condition, frame.owner = .step job →
        Unmoved (Condition.holds frame condition) s steps) ∧
      ∀ scope matrix, scope.job = job → Unmoved (Matrix.expand scope matrix) s steps) ∧
    (∀ workflow expression, Unmoved (resolve workflow expression) s steps) ∧
    ∀ frame condition, frame.owner = .job → Unmoved (Condition.holds frame condition) s steps := by
  refine ⟨?_, ?_, ?_⟩
  · intro job same
    have share : Share (some job) steps s.context.steps := by
      rintro _ ⟨rfl⟩
      exact same
    refine ⟨?_, ?_, ?_, ?_⟩
    · rintro scope step text rfl
      exact unmoved_of_alike share fun likens => fill_alike likens step text
    · rintro scope value rfl
      exact unmoved_of_alike share fun likens => resolveJobOutput_alike likens value
    · intro frame condition owner
      refine unmoved_of_alike share fun likens => Condition.holds_alike ?_ condition
      rwa [owner]
    · rintro scope matrix rfl
      exact unmoved_of_alike share fun likens => Matrix.expand_alike likens matrix
  · intro workflow expression
    have share : Share none steps s.context.steps := nofun
    exact unmoved_of_alike share fun likens => resolve_alike likens workflow expression
  · intro frame condition owner
    have share : Share none steps s.context.steps := nofun
    refine unmoved_of_alike share fun likens => Condition.holds_alike ?_ condition
    rwa [owner]

/-- Steps of two jobs with the same id and the same name of an output. -/
def twoJobsSession : Session where
  context := Context.recordStep (.str "test") "a" [("x", "2")]
    (Context.recordStep (.str "build") "a" [("x", "1")] {})

def oneJobSteps : StepOutputs := [(.str "build", [("a", [("x", "1")])])]

theorem step_outputs_stay_in_their_job_build :
    let scope : Scope := ⟨[], .str "build", []⟩
    let text := "$\x7b\x7b steps.a.outputs.x \x7d\x7d"
    let condition : Value := .str "steps.a.outputs.x == '1'"
    Table.find? (.str "build") oneJobSteps =
        Table.find? (.str "build") twoJobsSession.context.steps ∧
      ((fill scope "" text).perform twoJobsSession).1.toOption = some "1" ∧
      Unmoved (fill scope "" text) twoJobsSession oneJobSteps ∧
      Unmoved (resolveJobOutput scope (.str text)) twoJobsSession oneJobSteps ∧
      Unmoved (Condition.holds ⟨[], .step (.str "build"), []⟩ condition) twoJobsSession
        oneJobSteps ∧
      Unmoved (Matrix.expand scope (.map [(.str "axis", .str text)])) twoJobsSession oneJobSteps ∧
      Unmoved (Condition.holds ⟨[], .job, []⟩ condition) twoJobsSession oneJobSteps := by
  intro scope text condition
  have same : Table.find? (.str "build") oneJobSteps =
      Table.find? (.str "build") twoJobsSession.context.steps := by decide +kernel
  obtain ⟨own, -, ofJobs⟩ := step_outputs_stay_in_their_job twoJobsSession oneJobSteps
  obtain ⟨fills, outputs, decides, expands⟩ := own (.str "build") same
  exact ⟨same, by decide +kernel, fills scope "" text rfl, outputs scope (.str text) rfl,
    decides _ condition rfl, expands scope _ rfl, ofJobs _ condition rfl⟩

end Rehearsal
