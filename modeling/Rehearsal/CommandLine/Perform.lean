import Rehearsal.CommandLine.Options
import Rehearsal.Files
import Rehearsal.Run.Execute
import Rehearsal.Run.Summary
import Rehearsal.Workflow.Description
import Rehearsal.Workflow.Loading
import Rehearsal.Workflow.Location

/-! The result is an exit code: 0 for success, 1 for a failed or abandoned run, 2 for a workflow or
an option that is not valid. -/

namespace Rehearsal.CommandLine

open Play

/-- Sets which log records are kept, and whether secrets are masked in them. -/
def setUpLog (o : LogOptions) (masked : Bool) : Play Unit :=
  modify fun s => { s with logging := { threshold := o.threshold, masked } }

def loadFile (files : Files) (path : String) : Except Fault Mapping :=
  match files.look path with
  | .text content => Workflow.load content
  | .directory => .error .directory
  | .nothing => .error (.noFile path)
  | .tooLong => .error .pathTooLong

def reportProblems (problems : List Problem) : Play Nat := do
  for p in problems do
    error p.line
  return Problem.exitCode

def showSummary : Play Unit := do
  echo ""
  for line in (← get).ledger.summary true do
    echo line

/-- Runs the jobs of a workflow and shows the summary, also when the user quits. -/
def runAndSum (workflow : Mapping) (root : String) : Play Nat :=
  tryCatch (do
    Run.execute workflow root
    showSummary
    return if (← get).ledger.failed then 1 else 0) fun fault => do
      if let .quit := fault then
        warning fault.message
        showSummary
        return 1
      throw fault

/-- The root of the repository: the one that is asked for, or the one around the file. -/
def rootFor (files : Files) (o : RunOptions) (path : String) : Except Fault String :=
  match o.repositoryRoot.filter (· ≠ "") with
  | some root => Workflow.fullPath files.directory root
  | none => .ok (Workflow.repositoryRoot path)

def rehearse (files : Files) (o : RunOptions) (path : String) (workflow : Mapping) : Play Nat := do
  info "Workflow structure is valid"
  Workflow.describe workflow
  let root ← adopt (rootFor files o path)
  info ("Repository root: " ++ root)
  let policy ← adopt o.policy
  if policy.dryRun then info "[DRY RUN] Commands are previewed, not executed"
  let mocks := Workflow.mocksDirectory path
  modify fun s =>
    { s with policy, registry := { directory := some mocks, files := files.mocksIn mocks } }
  runAndSum workflow root

def reportFault (fault : Fault) : Play Nat := do
  match fault with
  | .mismatch m =>
    error ("Tool version check failed: " ++ m.message)
    showSummary
    return 1
  | .noFile _ =>
    error ("File not found: " ++ fault.message)
    return 1
  -- What ends the program is no error of the run.
  | .escaped (.exit _) | .escaped .interrupt => throw fault
  | _ =>
    if fault.isValueFault then
      error ("Validation error: " ++ fault.message)
      return 2
    error "Unexpected error: <detail>"
    return 1

def run (files : Files) (o : RunOptions) : Play Nat := do
  setUpLog o.log true
  tryCatch (do
    let path ← adopt (Workflow.fullPath files.directory o.workflow)
    match files.look path with
    | .nothing =>
      error ("Workflow file not found: " ++ path)
      return 1
    | .tooLong => throw .pathTooLong
    | _ =>
      info ("Reading workflow file: " ++ path)
      match loadFile files path with
      | .error (.invalid problems) => reportProblems problems
      | loaded => rehearse files o path (← adopt loaded)) reportFault

def validate (files : Files) (o : ValidateOptions) : Play Nat := do
  setUpLog o.log false
  let path ← adopt (Workflow.fullPath files.directory o.workflow)
  match loadFile files path with
  | .ok workflow =>
    info ("Workflow is valid: " ++ path)
    Workflow.describe workflow
    return 0
  | .error (.invalid problems) => reportProblems problems
  | .error (.noFile path) =>
    error ("File not found: " ++ (Fault.noFile path).message)
    return 1
  | .error fault => throw fault

def Request.perform (files : Files) : Request → Play Nat
  | .nothing => return 1
  | .run o => CommandLine.run files o
  | .validate o => CommandLine.validate files o

end Rehearsal.CommandLine
