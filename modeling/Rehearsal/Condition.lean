import Rehearsal.Expression.Evaluation
import Rehearsal.Expression.Parser
import Rehearsal.Variable.Resolve

/-! A condition is an expression over the values of the run. If it mentions an output that is not
recorded it is false, whatever else it says, and so it is if it cannot be parsed or evaluated. -/

namespace Rehearsal

open Play Expression Rehearsal.Text

namespace Condition

inductive Owner where
  | job
  | step (job : Scalar)

namespace Owner

/-- The job whose step outputs are visible; to the condition of a job none are. -/
def stepsOf? : Owner → Option Scalar
  | job => none
  | step j => some j

def title : Owner → String
  | job => "Job"
  | step _ => "Step"

def word : Owner → String
  | job => "job"
  | step _ => "step"

end Owner

structure Frame where
  workflow : Mapping
  owner : Owner
  matrix : Mapping := []

/-- The output that a reference mentions, if it is one that is not recorded. -/
def missingAt? (context : Context) (job : Option Scalar) (path : String) : Option MissingOutput :=
  match Reference.job? path with
  | some (needed, name) =>
    if (context.jobOutput? (.str needed) name).isNone then some (.job needed name) else none
  | none =>
    match Reference.step? path with
    | some (step, name) =>
      if (job.bind fun j => context.stepOutput? j step name).isNone then some (.step step name)
      else none
    | none => none

def missing? (context : Context) (job : Option Scalar) (e : Expr) : Option MissingOutput :=
  e.references.findSome? (missingAt? context job)

def recorded (output : Option String) : Operand :=
  .fresh ((output.map Value.str).getD .null)

def lookup (frame : Frame) (path : String) : Play Operand := do
  let context := (← get).context
  if Reference.isJobResult path then return .fresh (.str "success")
  if let some (needed, name) := Reference.job? path then
    return recorded (context.jobOutput? (.str needed) name)
  if let some job := frame.owner.stepsOf? then
    if let some (step, name) := Reference.step? path then
      return recorded (context.stepOutput? job step name)
  if let some key := Text.rest? "matrix." path then
    if let some value := Table.find? (.str key) frame.matrix then return ⟨value, some path⟩
  if path.toList.contains '.' then
    return .fresh (.str (← resolve frame.workflow path))
  else throw (.evaluation (.undefinedReference path))

def evaluate (frame : Frame) (e : Expr) : Play Operand :=
  e.evaluate Functions.builtin (lookup frame)

def parsed (text : List Char) : Play Expr :=
  match Expression.parse (String.ofList text) with
  | .ok e => pure e
  | .error e => throw (.parse e)

/-- The text that replaces a placeholder in a quoted string, quoted in the same way. -/
def spliced (frame : Frame) (quote : Option Char) (placeholder : List Char) :
    Play (List Char) := do
  let e ← parsed (Placeholder.expression placeholder)
  if let some output := missing? (← get).context frame.owner.stepsOf? e then
    throw (.evaluation (.missingOutput output))
  let text ← fit (← evaluate frame e).value.expressionText
  return if quote = some '\'' then Quoted.quoteSingle text.toList
    else Quoted.quoteDouble text.toList

def replaceEach (f : List Char → Play (List Char)) : List Piece → Play (List Char)
  | [] => return []
  | .plain c :: rest => return c :: (← replaceEach f rest)
  | .found s :: rest => do
    let replacement ← f s
    return replacement ++ (← replaceEach f rest)

/-- Replaces the placeholders that stand inside quoted strings by their values. -/
def splice (frame : Frame) (text : List Char) : Play (List Char) :=
  replaceEach
    (fun literal => replaceEach (spliced frame literal.head?) (cut Placeholder.length? literal))
    (cut Quoted.length? text)

/-- The expression of a condition. Placeholders outside quoted strings only delimit. -/
def expression (frame : Frame) (text : List Char) : Play Expr := do
  parsed (Placeholder.unwrap (← splice frame text))

/-- Runs a part of an evaluation. A fault of the condition is logged and leaves no result. -/
def attempt {α : Type} (frame : Frame) (text : List Char) (part : Play α) : Play (Option α) :=
  tryCatch (some <$> part) fun fault => do
    if fault.failsCondition then
      warning ("Error evaluating " ++ frame.owner.word ++ " condition '" ++ String.ofList text ++
        "': " ++ fault.message)
      return none
    else throw fault

def decideExpr (frame : Frame) (text : List Char) (e : Expr) : Play Bool := do
  match missing? (← get).context frame.owner.stepsOf? e with
  | some output =>
    warning (frame.owner.title ++ " condition references unknown " ++ output.description)
    return false
  | none =>
    match ← attempt frame text (evaluate frame e) with
    | none => return false
    | some operand => fit operand.value.truthy

def decideText (frame : Frame) (text : List Char) : Play Bool := do
  match ← attempt frame text (expression frame text) with
  | none => return false
  | some e => decideExpr frame text e

def holds (frame : Frame) (condition : Value) : Play Bool := do
  match condition with
  | .null => return true
  | .bool b => return b
  | _ =>
    match trim (← fit condition.plain).toList with
    | [] => return true
    | text => decideText frame text

end Condition
end Rehearsal
