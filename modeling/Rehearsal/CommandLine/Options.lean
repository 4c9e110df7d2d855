import Rehearsal.CommandLine.Reading
import Rehearsal.Session.Basic
import Rehearsal.Number.Reading

/-! There are two commands: to run a workflow, and only to validate it. -/

namespace Rehearsal.CommandLine

structure LogOptions where
  debug : Bool := false
  quiet : Bool := false
  verbose : Bool := false
  level : Level := .info
  deriving DecidableEq, Repr

namespace LogOptions

def level? : String → Option Level
  | "debug" => some .debug
  | "info" => some .info
  | "warn" => some .warning
  | "error" => some .error
  | _ => none

def threshold (o : LogOptions) : Level :=
  if o.debug then .debug else if o.quiet then .error else if o.verbose then .debug else o.level

end LogOptions

structure RunOptions where
  workflow : String := ""
  dryRun : Bool := false
  full : Bool := false
  lines : Int := 10
  repositoryRoot : Option String := none
  yesAll : Bool := false
  noJobPrompts : Bool := false
  log : LogOptions := {}
  deriving DecidableEq, Repr

def RunOptions.policy (o : RunOptions) : Except Fault Policy :=
  if o.lines < 0 then .error (.negativeLines (toString o.lines))
  else .ok {
    dryRun := o.dryRun
    runAllJobs := o.yesAll
    runAllCommands := o.yesAll
    confirmJobs := !o.noJobPrompts
    showFullOutput := o.full
    truncateLines := o.lines }

structure ValidateOptions where
  workflow : String := ""
  log : LogOptions := {}
  deriving DecidableEq, Repr

inductive Request where
  | nothing
  | run (options : RunOptions)
  | validate (options : ValidateOptions)
  deriving DecidableEq, Repr

/-! ### Switches -/

def helpSwitch {σ : Type} : Switch σ := ⟨["-h", "--help"], .inform⟩

def programSwitches : List (Switch Unit) := [helpSwitch, ⟨["--version"], .inform⟩]

/-- The switches about the log; `update` changes the log options among the settings. -/
def logSwitches {σ : Type} (update : (LogOptions → LogOptions) → σ → σ) : List (Switch σ) := [
  ⟨["--debug"], .change (update fun o => { o with debug := true })⟩,
  ⟨["--quiet"], .change (update fun o => { o with quiet := true })⟩,
  ⟨["--verbose"], .change (update fun o => { o with verbose := true })⟩,
  ⟨["--log-level"], .take fun value s =>
    (LogOptions.level? value).map fun level => update (fun o => { o with level }) s⟩]

def runSwitches : List (Switch RunOptions) := [
  helpSwitch,
  ⟨["-d", "--dry-run"], .change fun o => { o with dryRun := true }⟩,
  ⟨["-f", "--full"], .change fun o => { o with full := true }⟩,
  ⟨["-l", "--lines"], .take fun value o =>
    (Numeral.integer? 10 value.toList).map fun lines => { o with lines }⟩,
  ⟨["--repo-root"], .take fun value o => some { o with repositoryRoot := some value }⟩,
  ⟨["--yes-all"], .change fun o => { o with yesAll := true }⟩,
  ⟨["--no-job-prompts"], .change fun o => { o with noJobPrompts := true }⟩] ++
  logSwitches fun f o => { o with log := f o.log }

def validateSwitches : List (Switch ValidateOptions) :=
  helpSwitch :: logSwitches fun f o => { o with log := f o.log }

/-! ### Requests -/

def command (name : String) (arguments : List String) : Except Refusal Request :=
  match name with
  | "run" => do
    let (workflow, options) ← Switch.readAll runSwitches arguments {}
    return .run { options with workflow }
  | "validate" => do
    let (workflow, options) ← Switch.readAll validateSwitches arguments {}
    return .validate { options with workflow }
  | _ => .error .misused

/-- What classified arguments ask for; `surplus` tells of an unknown switch before them. -/
def requestOf (surplus : Bool) : List (Argument Unit) → Except Refusal Request
  | [] => if surplus then .error .misused else .ok .nothing
  | ⟨name, .word⟩ :: rest => do
    let request ← command name (rest.map (·.text))
    if surplus then throw .misused else return request
  | ⟨_, .separator⟩ :: _ => .error .misused
  | ⟨_, .unknown⟩ :: rest => requestOf true rest
  | ⟨_, .switch effect short attached⟩ :: rest => do
    let e ← Switch.expansion programSwitches effect short attached
    let _ ← Switch.apply e.changes ()
    requestOf surplus rest

def request (arguments : List String) : Except Refusal Request := do
  requestOf false (← Switch.classify programSwitches arguments)

end Rehearsal.CommandLine
