import Rehearsal.Expression.Error
import Rehearsal.Json.Parse
import Rehearsal.Value.Text

/-! The reasons for which an operation ends without a result. -/

namespace Rehearsal

structure Problem where
  message : String
  /-- Where in the document; empty if it is the document as a whole. -/
  path : String := ""
  deriving DecidableEq, Repr

namespace Problem

def exitCode : Nat := 2

def line (p : Problem) : String :=
  "Validation error: " ++ (if p.path = "" then "" else p.path ++ ": ") ++ p.message

end Problem

/-- A required tool is missing or has another version. -/
structure VersionMismatch where
  tool : String
  required : String
  /-- The version that is present; the empty string if it could not be found out. -/
  present : Value
  message : String
  deriving Repr

inductive Escape where
  /-- It ends the program. -/
  | exit (code : Int)
  /-- The user interrupts the program while it works. -/
  | interrupt
  /-- It fails, and there is no text for the failure. -/
  | textless
  deriving DecidableEq, Repr

inductive Fault where
  | parse (e : Expression.ParseError)
  | evaluation (e : Expression.EvaluationError)
  | unfit (u : Unfit)
  /-- A function is called with a number of arguments that it does not take. -/
  | arity
  /-- A value is of a kind that the operation does not take. -/
  | wrongKind
  /-- A member is asked of a value that is not a mapping. -/
  | notMapping
  /-- A mapping has no entry under a key. -/
  | noEntry
  /-- A text is too short. -/
  | tooShort
  /-- A text is not the numeral or the date that it has to be. -/
  | numeral
  /-- Values are inside each other without end, or too deep. -/
  | tooDeep
  /-- None of the answers chooses an option. -/
  | noChoice
  | invalid (problems : List Problem)
  /-- There is no file at a path. -/
  | noFile (path : String)
  /-- A directory stands where a file has to be. -/
  | directory
  /-- A path holds the zero character. -/
  | zeroInPath
  /-- A path or a name in it is too long for a file. -/
  | pathTooLong
  /-- The user quit. -/
  | quit
  | mismatch (m : VersionMismatch)
  /-- The number of output lines is negative. -/
  | negativeLines (lines : String)
  /-- Something that cannot be called is registered for an action. -/
  | notCallable (action : String)
  | escaped (e : Escape)
  deriving Repr

namespace Fault

/-- Whether the fault makes a condition false instead of ending its evaluation. -/
def failsCondition : Fault → Bool
  | parse _ => true
  | evaluation _ => true
  | arity => true
  | wrongKind => true
  | unfit .noJson => true
  | _ => false

/-- Whether the fault is about a text or number that is not what it has to be. -/
def isValueFault : Fault → Bool
  | parse _ => true
  | evaluation _ => true
  | unfit .integerTooLong => true
  | unfit .endless => true
  | numeral => true
  | zeroInPath => true
  | negativeLines _ => true
  | notCallable _ => true
  | _ => false

/-- The message of a fault; faults that have none of their own are described by a mark. -/
def message : Fault → String
  | parse e => e.message
  | evaluation e => e.message
  | invalid problems => "\n".intercalate (problems.map Problem.line)
  | noFile path => "Workflow file '" ++ path ++ "' not found"
  | quit => "Workflow execution stopped by user"
  | mismatch m => m.message
  | negativeLines lines => "--lines must be zero or positive, got " ++ lines
  | notCallable action => "Mock for " ++ action ++ " is not callable"
  | arity => "<TypeError>"
  | wrongKind => "<TypeError>"
  | unfit .noJson => "<TypeError>"
  | _ => "<detail>"

end Fault

def orUnfit {α : Type} : Except Unfit α → Except Fault α
  | .ok a => .ok a
  | .error u => .error (.unfit u)

end Rehearsal
