import Rehearsal.Context
import Rehearsal.Fault
import Rehearsal.Text.Search

/-! An action is named by its owner and name, perhaps with a version after an at sign, which does
not matter here. A mock stands in for an action: it is called with the inputs of a step and gives
the outputs. Mocks are registered, or found in a directory with one file for each action. -/

namespace Rehearsal

namespace Action

def name (action : String) : String := String.ofList (action.toList.takeWhile (· ≠ '@'))

def fileName (action : String) : String :=
  String.ofList (Text.replaceAll ['/'] ['-'] (name action).toList) ++ ".py"

def isTerraformSetup (action : String) : Bool := name action == "hashicorp/setup-terraform"

def isCheckout (action : String) : Bool := Text.startsWith (name action) "actions/checkout"

end Action

structure Invocation where
  inputs : Table String String
  workingDirectory : String
  stepId : String
  dryRun : Bool
  deriving DecidableEq, Repr

/-- What comes of a call of a mock: a value, a failure with its text, or what the step cannot hold
back. -/
inductive Reply where
  | ok (value : Value)
  | error (text : String)
  | escape (e : Escape)
  deriving Inhabited

/-- What stands in for an action. A mock may answer the same call in another way later, so the
number of earlier calls of mocks is given too. -/
structure Mock where
  respond : (earlier : Nat) → Invocation → Reply
  record : Option String := none
  deriving Inhabited

inductive MockFile where
  | mock (m : Mock)
  | noMock
  | broken
  deriving Inhabited

structure Registry where
  directory : Option String := none
  files : Table String MockFile := []
  /-- The mocks known so far by action; an action that was found to have none has none. -/
  known : Table String (Option Mock) := []
  calls : Nat := 0
  deriving Inhabited

namespace Registry

def path? (r : Registry) (action : String) : Option String :=
  r.directory.map fun d => d ++ "/" ++ Action.fileName action

def keep (action : String) (m : Option Mock) (r : Registry) : Registry :=
  { r with known := Table.put (Action.name action) m r.known }

def count (r : Registry) : Registry := { r with calls := r.calls + 1 }

end Registry
end Rehearsal
