import Rehearsal.Value.Basic

/-! A ledger holds the results of all instances and steps in the order of execution. Only the
instance and the step that were started last are ever changed. -/

namespace Rehearsal

inductive Status where
  | success
  | failed
  | skipped
  deriving DecidableEq, Repr

namespace Status

def name : Status → String
  | success => "success"
  | failed => "failed"
  | skipped => "skipped"

end Status

structure StepResult where
  name : String
  status : Status
  command : Option String := none
  deriving DecidableEq, Repr

structure JobResult where
  name : Scalar
  status : Status := .success
  steps : List StepResult := []
  deriving Repr

structure Ledger where
  workflowName : String
  jobs : List JobResult := []
  aborted : Bool := false
  /-- The jobs whose instances have all been dealt with, the earliest first. -/
  completed : List Scalar := []
  deriving Repr

namespace Ledger

def steps (l : Ledger) : List StepResult := l.jobs.flatMap (·.steps)

def failed (l : Ledger) : Bool := l.jobs.any (·.status == .failed)

def updateLast (f : JobResult → JobResult) (l : Ledger) : Ledger :=
  match l.jobs.getLast? with
  | some j => { l with jobs := l.jobs.dropLast ++ [f j] }
  | none => l

def start (name : Scalar) (l : Ledger) : Ledger := { l with jobs := l.jobs ++ [{ name }] }

def complete (job : Scalar) (l : Ledger) : Ledger := { l with completed := l.completed ++ [job] }

@[simp]
theorem completed_updateLast (f : JobResult → JobResult) (l : Ledger) :
    (l.updateLast f).completed = l.completed := by
  unfold updateLast
  split <;> rfl

end Ledger

namespace JobResult

def setStatus (status : Status) (j : JobResult) : JobResult := { j with status }

def addStep (step : StepResult) (j : JobResult) : JobResult := { j with steps := j.steps ++ [step] }

def setLastStep (status : Status) (j : JobResult) : JobResult :=
  match j.steps.getLast? with
  | some step => { j with steps := j.steps.dropLast ++ [{ step with status }] }
  | none => j

end JobResult
end Rehearsal
