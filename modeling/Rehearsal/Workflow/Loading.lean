import Rehearsal.Text.Bytes
import Rehearsal.Workflow.Validation
import Rehearsal.Yaml.Parse

/-! A workflow is the value of a document in which nothing is wrong; every problem of a document is
reported at once. -/

namespace Rehearsal.Workflow

def refused : Yaml.Refusal → Fault
  | .malformed => .invalid [{ message := "Failed to parse workflow YAML: <detail>" }]
  | .numeral => .numeral
  | .tooShort => .tooShort
  | .noEntry => .noEntry
  | .noMatch => .notMapping
  | .overflow => .unfit .integerOutOfRange
  | .wrongKind => .wrongKind
  | .tooDeep => .tooDeep

def load (text : String) : Except Fault Mapping := do
  let text := String.ofList (Text.unifyLineEnds text.toList)
  let workflow ← match Yaml.parse text with
    | .ok v => pure v
    | .error r => throw (refused r)
  match ← orUnfit (problems workflow) with
  | [] => return workflow.mapping?.getD []
  | found => throw (.invalid found)

end Rehearsal.Workflow
