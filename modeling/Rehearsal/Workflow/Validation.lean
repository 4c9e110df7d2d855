import Rehearsal.Fault
import Rehearsal.Value.Coercion

/-! `problems` lists everything in a workflow document that a run does not understand. -/

namespace Rehearsal.Workflow

def fields : List String :=
  ["name", "run-name", "on", "env", "defaults", "jobs", "permissions", "concurrency"]

def jobFields : List String :=
  ["name", "runs-on", "needs", "if", "env", "defaults", "strategy", "steps", "outputs",
    "permissions", "environment", "concurrency", "timeout-minutes", "continue-on-error",
    "container", "services", "uses", "with", "secrets"]

def stepFields : List String :=
  ["id", "name", "if", "run", "uses", "with", "env", "working-directory", "shell",
    "continue-on-error", "timeout-minutes"]

/-- The problems that a check finds. A key without a text ends it. -/
abbrev Check := Except Unfit (List Problem)

def Check.all (checks : List Check) : Check := do
  return (← checks.mapM (m := Except Unfit) fun check => check).flatten

def Check.demand (ok : Bool) (message path : String) : Check :=
  .ok (if ok then [] else [⟨message, path⟩])

def memberPath (path member : String) : String :=
  if path = "" then member else path ++ "." ++ member

def checkFields (known : List String) (path : String) (entries : Mapping) : Check :=
  Check.all (entries.map fun (key, _) => do
    if known.any (fun field => key == .str field) then return []
    else
      let name ← key.plain
      return [⟨"Unknown field '" ++ name ++ "'", memberPath path name⟩])

def checkEnvironment (path : String) (environment : Value) : Check :=
  match environment.opened with
  | .map entries =>
    Check.all (entries.map fun (key, value) => do
      if value.isCollection then
        let name ← key.plain
        return [⟨"Value of '" ++ name ++ "' must be a scalar", memberPath path name⟩]
      else return [])
  | _ => .ok [⟨"'env' must be a mapping", path⟩]

def isMapping (v : Value) : Bool := v.mapping?.isSome

def isString : Value → Bool
  | .str _ => true
  | _ => false

def checkDefaults (path : String) (defaults : Value) : Check :=
  match defaults.opened with
  | .map entries =>
    match Table.find? (.str "run") entries with
    | none => .ok []
    | some .null => .ok []
    | some run => Check.demand (isMapping run) "'run' must be a mapping" (memberPath path "run")
  | _ => .ok [⟨"'defaults' must be a mapping", path⟩]

def checkField (entries : Mapping) (field path : String) (check : String → Value → Check) :
    Check :=
  match Table.find? (.str field) entries with
  | some value => check (memberPath path field) value
  | none => .ok []

def checkStated (entries : Mapping) (field path : String) (check : String → Value → Check) :
    Check :=
  checkField entries field path fun path value =>
    match value with
    | .null => .ok []
    | value => check path value

def checkStep (path : String) (step : Value) : Check :=
  match step.opened with
  | .map entries =>
    let has (field : String) : Bool := Table.has (.str field) entries
    Check.all [
      checkFields stepFields path entries,
      Check.demand (!(has "run" && has "uses")) "A step cannot have both 'run' and 'uses'" path,
      checkField entries "uses" path fun path uses =>
        Check.demand (isString uses) "'uses' must be a string" path,
      checkField entries "with" path fun path arguments =>
        Check.demand (isMapping arguments) "'with' must be a mapping" path,
      checkField entries "env" path checkEnvironment]
  | _ => .ok [⟨"Step must be a mapping", path⟩]

def checkNeeds (jobs : Mapping) (path : String) (needs : Value) : Check :=
  let names : Option (List String) := match needs.opened with
    | .str name => some [name]
    | .list items => items.mapM fun
      | .str name => some name
      | _ => none
    | _ => none
  match names with
  | none => .ok [⟨"'needs' must be a job id or a list of job ids", path⟩]
  | some names =>
    .ok ((names.filter fun name => !Table.has (.str name) jobs).map fun name =>
      ⟨"'needs' references unknown job '" ++ name ++ "'", path⟩)

def checkStrategy (path : String) (strategy : Value) : Check :=
  match strategy.opened with
  | .map entries =>
    checkField entries "matrix" path fun path matrix =>
      Check.demand (matrix.isCollection || isString matrix)
        "'matrix' must be a mapping, a list or an expression" path
  | _ => .ok [⟨"'strategy' must be a mapping", path⟩]

def checkSteps (path : String) (steps : Value) : Check :=
  if !steps.isPresent then .ok [⟨"'steps' is required and must not be empty", path⟩]
  else match steps.opened with
    | .list items =>
      Check.all (items.zipIdx.map fun (step, i) =>
        checkStep (path ++ "[" ++ toString i ++ "]") step)
    | _ => .ok [⟨"'steps' must be a list", path⟩]

/-- The problems of a job. A job that uses another workflow needs no runner and no steps. -/
def checkJob (jobs : Mapping) (path : String) (job : Value) : Check :=
  match job.opened with
  | .map entries =>
    let has (field : String) : Bool := Table.has (.str field) entries
    let member (field : String) : Value := (Table.find? (.str field) entries).getD .null
    Check.all [
      checkFields jobFields path entries,
      Check.demand (has "uses" || has "runs-on") "'runs-on' is required"
        (memberPath path "runs-on"),
      checkStated entries "needs" path (checkNeeds jobs),
      checkField entries "env" path checkEnvironment,
      checkField entries "defaults" path checkDefaults,
      checkStated entries "outputs" path fun path outputs =>
        Check.demand (isMapping outputs) "'outputs' must be a mapping" path,
      checkStated entries "strategy" path checkStrategy,
      if has "uses" then .ok [] else checkSteps (memberPath path "steps") (member "steps")]
  | _ => .ok [⟨"Job must be a mapping", path⟩]

def checkJobs (jobs : Value) : Check :=
  if !jobs.isPresent then .ok [⟨"'jobs' field is required and must not be empty", "jobs"⟩]
  else match jobs.opened with
    | .map entries =>
      Check.all (entries.map fun (key, job) => do
        checkJob entries (memberPath "jobs" (← key.plain)) job)
    | _ => .ok [⟨"'jobs' must be a mapping of job id to job", "jobs"⟩]

def problems (workflow : Value) : Check :=
  match workflow.opened with
  | .map entries =>
    Check.all [
      checkFields fields "" entries,
      Check.demand (Table.has (.str "on") entries) "'on' field is required" "on",
      checkField entries "env" "" checkEnvironment,
      checkField entries "defaults" "" checkDefaults,
      checkJobs ((Table.find? (.str "jobs") entries).getD .null)]
  | _ => .ok [⟨"Workflow must be a YAML object/dictionary", ""⟩]

end Rehearsal.Workflow
