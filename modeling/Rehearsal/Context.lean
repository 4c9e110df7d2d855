import Rehearsal.Value.Basic

/-! Answers and outputs that are recorded during a run. A resolved expression keeps its first
answer; outputs of a step are merged with those recorded before. -/

namespace Rehearsal

abbrev Outputs := Table String String

structure Context where
  /-- Expression texts with the values that they were resolved to. -/
  resolved : Table String String := []
  steps : Table Scalar (Table String Outputs) := []
  jobs : Table Scalar Outputs := []
  /-- The version of the tool manager, if one is known to be present. -/
  toolchain : Option String := none
  deriving Repr

namespace Context

def stepOutput? (c : Context) (job : Scalar) (step name : String) : Option String := do
  let steps ← Table.find? job c.steps
  let outputs ← Table.find? step steps
  Table.find? name outputs

def jobOutput? (c : Context) (job : Scalar) (name : String) : Option String := do
  let outputs ← Table.find? job c.jobs
  Table.find? name outputs

def recordStep (job : Scalar) (step : String) (outputs : Outputs) (c : Context) : Context :=
  let steps := (Table.find? job c.steps).getD []
  let recorded := (Table.find? step steps).getD []
  { c with steps := Table.put job (Table.put step (Table.putAll outputs recorded) steps) c.steps }

def recordJob (job : Scalar) (name value : String) (c : Context) : Context :=
  let outputs := (Table.find? job c.jobs).getD []
  { c with jobs := Table.put job (Table.put name value outputs) c.jobs }

def remember (expression value : String) (c : Context) : Context :=
  { c with resolved := Table.put expression value c.resolved }

end Context

/-- How a run behaves. The two `runAll` fields are set during a run and then stay set. -/
structure Policy where
  dryRun : Bool := false
  runAllJobs : Bool := false
  runAllCommands : Bool := false
  confirmJobs : Bool := true
  showFullOutput : Bool := false
  /-- How many lines of console output are shown at the start and at the end. -/
  truncateLines : Int := 10
  deriving DecidableEq, Repr

end Rehearsal
