import Rehearsal.Matrix
import Rehearsal.Step.Run

/-! A job runs once for each set of bindings of its matrix. An instance is confirmed, its condition
is decided, its steps run one after the other, and at last its outputs are recorded. -/

namespace Rehearsal.Job

open Play

/-- The name under which an instance is shown: that of the job, and the bindings if there are
any. -/
def displayName (job : Scalar) (bindings : Mapping) : Except Unfit Scalar := do
  if bindings.isEmpty then return job
  else return .str ((← job.plain) ++ " (" ++ (← Matrix.describe bindings) ++ ")")

/-- Whether an instance is to run: the user is asked, unless jobs need no confirmation. -/
def confirmed (title : String) : Play Bool := do
  let policy := (← get).policy
  if !policy.confirmJobs || policy.runAllJobs then return true
  match ← confirm ("Do you want to run job '" ++ title ++ "'?") with
  | .quit =>
    info "Quitting workflow execution"
    modifyLedger (Ledger.updateLast (JobResult.setStatus .skipped))
    throw .quit
  | .all =>
    modifyPolicy fun p => { p with runAllJobs := true }
    info "[RUN ALL JOBS MODE ACTIVATED] Will auto-run all remaining jobs"
    return true
  | .yes => return true
  | _ =>
    info "Skipping job (user chose not to run)"
    return false

/-- Replaces the placeholders in variables of a job and logs the variables masked. -/
def fillVariables (scope : Scope) : List (Scalar × Value) → Play (List (String × String))
  | [] => return []
  | (key, value) :: rest => do
    let name ← fit key.plain
    let text ← fillValue scope "job-env" value
    info (name ++ " = \"" ++ (← mask text) ++ "\"")
    return (name, text) :: (← fillVariables scope rest)

def environment (scope : Scope) (job : Mapping) : Play (Table String String) := do
  match Table.find? (.str "env") job with
  | some (.map (entry :: entries)) =>
    info "[ENV]"
    return Table.ofList (← fillVariables scope (entry :: entries))
  | _ => return []

/-- Records the outputs of a job one after the other and logs them masked. -/
def recordEach (scope : Scope) : List (Scalar × Value) → Play Unit
  | [] => return
  | (key, value) :: rest => do
    let text ← resolveJobOutput scope value
    let name ← fit key.plain
    modifyContext (Context.recordJob scope.job name text)
    info (name ++ " = \"" ++ (← mask text) ++ "\"")
    recordEach scope rest

def recordOutputs (scope : Scope) (job : Mapping) : Play Unit := do
  match (Table.find? (.str "outputs") job).map Value.opened with
  | some (.map (entry :: entries)) =>
    info "[OUTPUTS]"
    recordEach scope (entry :: entries)
  | _ => return

def steps (job : Mapping) : Except Fault (List Value) :=
  let stated := (Table.find? (.str "steps") job).getD .null
  if !stated.isPresent then .ok []
  else match stated.opened with
    | .list items => .ok items
    | .map _ | .set _ | .str _ | .scalar (.bytes _) => .error .notMapping
    | _ => .error .wrongKind

def startedStep (step : Value) (index : Nat) : Except Fault StepResult := do
  let name ← Step.name step index
  match ← Step.member "run" step with
  | .null => return ⟨name, .skipped, none⟩
  | command => return ⟨name, .skipped, some (← orUnfit command.expressionText)⟩

def failLast : Play Unit :=
  modifyLedger (Ledger.updateLast fun j => (j.setLastStep .failed).setStatus .failed)

/-- Runs a step and keeps its result. Gives whether the instance goes on. -/
def runStep (site : Step.Site) (step : Value) (index : Nat) : Play Bool := do
  let started ← adopt (startedStep step index)
  modifyLedger (Ledger.updateLast (JobResult.addStep started))
  let outcome ← tryCatch (Step.run site step index) fun fault => do
    if let .mismatch _ := fault then failLast
    throw fault
  if outcome.status = .failed then failLast
  else modifyLedger (Ledger.updateLast (JobResult.setLastStep outcome.status))
  return !outcome.haltsJob

/-- Runs steps from an index on. Gives whether the instance came to its end. -/
def runSteps (site : Step.Site) : List Value → (index : Nat) → Play Bool
  | [], _ => return true
  | step :: rest, index => do
    if ← runStep site step index then runSteps site rest (index + 1) else return false

def skip : Play Unit := modifyLedger (Ledger.updateLast (JobResult.setStatus .skipped))

def perform (site : Step.Site) (job : Mapping) (title : String) : Play Unit := do
  let surroundings ← environment site.scope job
  let site := { site with jobEnvironment := surroundings }
  if ← runSteps site (← adopt (steps job)) 0 then
    recordOutputs site.scope job
    info ("Job '" ++ title ++ "' completed")
  else info ("Stopping job '" ++ title ++ "'")

def runInstance (site : Step.Site) (job : Mapping) : Play Unit := do
  let name ← fit (displayName site.job site.matrix)
  modifyLedger (Ledger.start name)
  let title ← fit name.plain
  info ("Running job: " ++ title)
  let runner := (Table.find? (.str "runs-on") job).getD .null
  if runner.isPresent then info ("Runs on: " ++ (← fit runner.plain))
  if !site.matrix.isEmpty then
    info ("Matrix: " ++ (← fit (Json.text .airy (.map site.matrix))))
  if ← confirmed title then
    let condition := (Table.find? (.str "if") job).getD .null
    if ← Condition.holds ⟨site.workflow, .job, site.matrix⟩ condition then
      perform site job title
    else
      info ("Skipping job (condition not met: " ++ (← fit condition.plain) ++ ")")
      skip
  else skip

def runInstances (site : Step.Site) (job : Mapping) (count : Nat) :
    List Mapping → (number : Nat) → Play Unit
  | [], _ => return
  | bindings :: rest, number => do
    if !bindings.isEmpty then
      info ("Running matrix job " ++ toString number ++ " of " ++ toString count)
    runInstance { site with matrix := bindings } job
    runInstances site job count rest (number + 1)

/-- Runs every instance of a job. Anything but a mapping is a job without members. -/
def run (workflow : Mapping) (repositoryRoot : String) (name : Scalar) (definition : Value) :
    Play Unit := do
  let job := definition.mapping?.getD []
  let site : Step.Site := ⟨workflow, repositoryRoot, name, .map job, [], []⟩
  let strategy := (Table.find? (.str "strategy") job).getD .null
  let instances ← Matrix.expand site.scope ((strategy.field? "matrix").getD .null)
  runInstances site job instances.length instances 1

end Rehearsal.Job
