import Rehearsal.Command.Script
import Rehearsal.Path
import Rehearsal.Step.Name
import Rehearsal.Variable.Resolve

/-! The directory and the environment in which the command of a step runs. -/

namespace Rehearsal.Step

open Play

structure Site where
  workflow : Mapping
  repositoryRoot : String
  job : Scalar
  definition : Value
  matrix : Mapping := []
  jobEnvironment : Table String String := []

def Site.scope (site : Site) : Scope := ⟨site.workflow, site.job, site.matrix⟩

def defaultDirectory (definition : Value) : Value :=
  let defaults := (definition.field? "defaults").getD .null
  let run := (defaults.field? "run").getD .null
  (run.field? "working-directory").getD .null

/-- The directory of a step: its own, that of the job, that of the workflow, or the root of the
repository, whichever is stated first. -/
def directory (site : Site) (step : Value) (stepId : String) : Play String := do
  let own ← adopt (member "working-directory" step)
  let stated := [own, defaultDirectory site.definition, defaultDirectory (.map site.workflow)]
  match stated.find? Value.isPresent with
  | none => return site.repositoryRoot
  | some value =>
    let path ← fillValue site.scope stepId value
    return Path.normalize (Path.under site.repositoryRoot path)

def fillEntries (scope : Scope) (stepId : String) : List (Scalar × Value) →
    Play (List (String × String))
  | [] => return []
  | (key, value) :: rest => do
    let name ← fit key.plain
    let text ← fillValue scope stepId value
    return (name, text) :: (← fillEntries scope stepId rest)

/-- The variables that a value states; values other than mappings state none. -/
def statedVariables (scope : Scope) (stepId : String) (environment : Value) :
    Play (Table String String) := do
  match environment.opened with
  | .map entries => return Table.ofList (← fillEntries scope stepId entries)
  | _ => return []

/-- The environment of a command: the variables that every command sees, then those of the
workflow, the job and the step. -/
def environment (site : Site) (step : Value) (stepId : String) : Play (Table String String) := do
  let ofWorkflow ← statedVariables site.scope stepId
    ((Table.find? (.str "env") site.workflow).getD .null)
  let ofStep ← statedVariables site.scope stepId (← adopt (member "env" step))
  return Command.baseEnvironment |> Table.putAll ofWorkflow |> Table.putAll site.jobEnvironment |>
    Table.putAll ofStep

end Rehearsal.Step
