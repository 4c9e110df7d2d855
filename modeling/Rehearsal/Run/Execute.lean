import Rehearsal.Job.Instance
import Rehearsal.Job.Needs

/-! The jobs run in passes. Each pass looks at the jobs in written order and runs those that are not
done and whose needs are; a pass that runs none is the last one. When the user quits, the run ends
at once and keeps what has been finished. -/

namespace Rehearsal.Run

open Play

def detectToolchain : Play Unit := do
  let s ← get
  if s.context.toolchain.isNone then
    modifyContext fun c => { c with toolchain := s.toolchain }
    match s.toolchain.filter (· ≠ "") with
    | some version => info ("mise detected: " ++ version)
    | none => info "mise not detected; commands run with the current PATH"

def jobs (workflow : Mapping) : Except Fault Mapping :=
  let stated := (Table.find? (.str "jobs") workflow).getD .null
  if !stated.isPresent then .ok []
  else match stated.opened with
    | .map entries => .ok entries
    | .list _ | .set _ | .str _ | .scalar (.bytes _) => .error .notMapping
    | _ => .error .wrongKind

def visit (workflow : Mapping) (repositoryRoot : String) (name : Scalar) (job : Value) :
    Play Unit := do
  let done := (← get).ledger.completed
  if !Job.isDone done name then
    if Job.isReady done (← adopt (Job.needs job)) then
      Job.run workflow repositoryRoot name job
      modifyLedger (Ledger.complete name)

def pass (workflow : Mapping) (repositoryRoot : String) : (jobs : Mapping) → Play Unit
  | [] => return
  | (name, job) :: rest => do
    visit workflow repositoryRoot name job
    pass workflow repositoryRoot rest

def stringNames : List Scalar → Except Fault (List String)
  | [] => .ok []
  | .str name :: rest => return name :: (← stringNames rest)
  | _ => .error .wrongKind

def stuckText (names : List String) : String :=
  "No jobs could run. Remaining jobs: " ++ ", ".intercalate names

def reportStuck (jobs : Mapping) : Play Unit := do
  let done := (← get).ledger.completed
  let names ← adopt (stringNames (Job.remaining jobs done))
  warning (stuckText names)
  warning "This might indicate a circular dependency or a missing job"

/-- What comes of making passes over the jobs until all are done or a pass runs none. -/
def passesFrom (workflow : Mapping) (repositoryRoot : String) (jobs : Mapping) (s : Session) :
    Except Fault Unit × Session :=
  if s.ledger.completed.length < jobs.length then
    match (pass workflow repositoryRoot jobs).perform s with
    | (.error fault, next) => (.error fault, next)
    | (.ok (), next) =>
      if s.ledger.completed.length < next.ledger.completed.length then
        passesFrom workflow repositoryRoot jobs next
      else (reportStuck jobs).perform next
  else (.ok (), s)
termination_by jobs.length - s.ledger.completed.length

def runJobs (workflow : Mapping) (repositoryRoot : String) : Play Unit := do
  let jobs ← adopt (jobs workflow)
  ofPerform (passesFrom workflow repositoryRoot jobs)

def title (workflow : Mapping) : Except Unfit String :=
  let stated := (Table.find? (.str "name") workflow).getD .null
  if stated.isPresent then stated.plain else .ok "Workflow"

def openLedger (workflow : Mapping) : Play Unit := do
  modifyLedger fun _ => { workflowName := "Workflow" }
  let workflowName ← fit (title workflow)
  modifyLedger fun l => { l with workflowName }

def stop (fault : Fault) : Play Unit := do
  if let .quit := fault then
    info "Workflow execution stopped by user"
    modifyLedger fun l => { l with aborted := true }
  throw fault

/-- Runs a workflow. The results are in the ledger, also after a fault. -/
def execute (workflow : Mapping) (repositoryRoot : String) : Play Unit := do
  openLedger workflow
  detectToolchain
  tryCatch (runJobs workflow (Path.tidy repositoryRoot)) stop

end Rehearsal.Run
