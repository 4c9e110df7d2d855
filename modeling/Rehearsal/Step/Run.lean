import Rehearsal.Action.Lookup
import Rehearsal.Action.Terraform
import Rehearsal.Condition
import Rehearsal.Step.Setting

/-! A step is a command, an action or neither. A command is shown to the user, confirmed, executed
and its outputs recorded; an action is left to its mock. -/

namespace Rehearsal.Step

open Play

/-- How a step ended, and whether the job ends with it. -/
structure Outcome where
  status : Status
  haltsJob : Bool := false
  deriving DecidableEq, Repr

/-- What an answer to a confirmation about commands means: whether to go on. To quit is a fault, and
to go on with all commands is kept for the rest of the run. -/
def goesOn (answer : Confirmation) : Play Bool := do
  match answer with
  | .quit =>
    info "Quitting workflow execution"
    throw .quit
  | .all =>
    modifyPolicy fun p => { p with runAllCommands := true }
    info "[RUN ALL MODE ACTIVATED] Will auto-execute all remaining commands"
    return true
  | .yes => return true
  | _ => return false

def commandAllowed : Play Bool := do
  if (← get).policy.runAllCommands then return true
  goesOn (← confirm ("Please review the command above. Do you trust this command and want to " ++
    "run it on your computer?"))

/-- Asks whether the job goes on after a failed command; if all commands are to be executed it
does. -/
def goesOnAfterFailure : Play Bool := do
  if (← get).policy.runAllCommands then
    warning "Continuing with the next step (run all mode)"
    return true
  else if ← goesOn (← confirm "Command failed. Do you want to continue with the next step?") then
    return true
  else
    info "Stopping job after failed command"
    return false

def withoutLineEnds (text : String) : String :=
  String.ofList (text.toList.reverse.dropWhile (· = '\n')).reverse

/-- Console output as it is shown: masked, and cut to a window unless all of it is wanted. -/
def shown (policy : Policy) (secrets : Secrets) (text : String) : String :=
  let masked := secrets.mask (withoutLineEnds text)
  if policy.showFullOutput then masked else (Window.of masked policy.truncateLines).text

def showOutput (level : Level) (title text : String) : Play Unit := do
  if Text.allBlank text then return
  let s ← get
  log level (title ++ "\n" ++ shown s.policy s.secrets text)

def logOutputs : List (String × String) → Play Unit
  | [] => return
  | (name, value) :: rest => do
    info ("[OUTPUT] " ++ name ++ " = \"" ++ (← mask value) ++ "\"")
    logOutputs rest

def recordOutputs (job : Scalar) (stepId : String) (outputs : Outputs) : Play Unit := do
  modifyContext (Context.recordStep job stepId outputs)
  logOutputs outputs

def finish (site : Site) (stepId : String) (report : Report) : Play Outcome := do
  let outputs := Outputs.ofFile report.written
  showOutput .info "[OUTPUT]" report.output
  showOutput .warning "[STDERR]" report.error
  if !outputs.isEmpty then recordOutputs site.job stepId outputs
  if report.succeeded then
    info "Command completed successfully"
    return ⟨.success, false⟩
  else
    error ("Command failed with exit code " ++ toString report.exit)
    return ⟨.failed, !(← goesOnAfterFailure)⟩

def runCommand (site : Site) (step command : Value) (stepId directory : String) :
    Play Outcome := do
  let text ← fillValue site.scope stepId command
  if (← get).policy.dryRun then
    info ("[PREVIEW] Would execute: " ++ text ++ " (in " ++ directory ++ ")")
    return ⟨.success, false⟩
  else
    info ("Command: " ++ text)
    info ("Working directory: " ++ directory)
    if ← commandAllowed then
      let surroundings ← environment site step stepId
      let surroundings := Table.put Command.outputVariable Command.outputFile surroundings
      finish site stepId (← execute text directory surroundings)
    else
      info "Skipping command"
      return ⟨.skipped, false⟩

def setUpTerraform (site : Site) (step : Value) (directory : String) : Play Unit := do
  info "Setting up Terraform..."
  let arguments ← adopt (member "with" step)
  let version ← if arguments.isPresent then adopt (member "terraform_version" arguments)
    else pure .null
  if !version.isPresent then
    warning "No terraform_version specified in setup-terraform action"
  else
    let required ← fillValue site.scope "terraform-setup" version
    info ("Required Terraform version: " ++ required)
    if (← get).policy.dryRun then
      info ("[PREVIEW] Would check local Terraform version against " ++ required)
    else
      info ("Checking Terraform version in: " ++ directory)
      let _ ← Terraform.check required directory

def mockOutputs : List (Scalar × Value) → Except Unfit (List (String × String))
  | [] => .ok []
  | (key, value) :: rest => do
    let name ← key.plain
    let text ← value.expressionText
    return (name, text) :: (← mockOutputs rest)

def inputs (site : Site) (step : Value) (stepId : String) : Play (Table String String) := do
  let arguments ← adopt (member "with" step)
  if !arguments.isPresent then return []
  match arguments.opened with
  | .map entries => return Table.ofList (← fillEntries site.scope stepId entries)
  | _ => throw .notMapping

def runMock (site : Site) (step : Value) (stepId directory name : String) (m : Mock) :
    Play Unit := do
  let given ← inputs site step stepId
  let dryRun := (← get).policy.dryRun
  match ← Registry.call m ⟨given, directory, stepId, dryRun⟩ with
  | .error text => warning ("Error running mock for " ++ name ++ ": " ++ text)
  | .ok (.map entries) =>
    recordOutputs site.job stepId (Table.ofList (← fit (mockOutputs entries)))
    info ("Action " ++ name ++ " completed with mock")
  | .ok value =>
    warning ("Mock for " ++ name ++ " returned " ++ value.kindName ++
      ", expected a mapping; no outputs recorded")
  | .escape e => throw (.escaped e)

/-- Runs an action: Terraform is checked, a checkout is left out, and everything else is up to a
mock. -/
def runAction (site : Site) (step action : Value) (stepId directory : String) :
    Play Outcome := do
  let action ← fit action.plain
  let name := Action.name action
  info ("Running action: " ++ action)
  if Action.isTerraformSetup action then
    setUpTerraform site step directory
    return ⟨.success, false⟩
  else if Action.isCheckout action then
    info "Skipping checkout (the local working copy is used)"
    return ⟨.skipped, false⟩
  else
    match ← Registry.get action with
    | none => info ("No mock for " ++ name ++ "; action is not simulated")
    | some m => runMock site step stepId directory name m
    return ⟨.success, false⟩

def perform (site : Site) (step : Value) (name stepId : String) : Play Outcome := do
  let directory ← directory site step stepId
  let command ← adopt (member "run" step)
  let action ← adopt (member "uses" step)
  match command with
  | .null =>
    if action.isPresent then runAction site step action stepId directory
    else
      if (← get).policy.dryRun then info ("[PREVIEW] Would run step: " ++ name)
      else
        info ("Running step: " ++ name)
        record .pause
      return ⟨.success, false⟩
  | command => runCommand site step command stepId directory

def run (site : Site) (step : Value) (index : Nat) : Play Outcome := do
  let name ← adopt (name step index)
  let stepId ← adopt (id step index)
  info ("Step: " ++ name)
  let condition ← adopt (member "if" step)
  if ← Condition.holds ⟨site.workflow, .step site.job, site.matrix⟩ condition then
    perform site step name stepId
  else
    info ("Skipping step (condition not met: " ++ (← fit condition.plain) ++ ")")
    return ⟨.skipped, false⟩

end Rehearsal.Step
