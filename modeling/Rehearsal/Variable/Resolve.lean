import Rehearsal.Expression.Placeholder
import Rehearsal.Session.Prompt
import Rehearsal.Value.Coercion
import Rehearsal.Variable.Source

/-! The value of an expression in a command comes from the workflow, from what the run has recorded,
or from the user. Once resolved, an expression keeps its value for the rest of the run. -/

namespace Rehearsal

open Play

/-- The value of a variable of the workflow. A list or a string in place of the variables can be
searched but has no values. -/
def environmentValue? (workflow : Mapping) (name : String) : Except Fault (Option Value) :=
  match ((Table.find? (.str "env") workflow).getD .null).opened with
  | .map entries => .ok (Table.find? (.str name) entries)
  | environment =>
    if !environment.isPresent then .ok none
    else
      let searched : Option Bool := match environment with
        | .str text => some (Text.contains text name)
        | .list items => some (items.any fun item => item.same (.str name))
        | .set members => some (members.any (· == .str name))
        | _ => none
      match searched with
      | some false => .ok none
      | _ => .error .wrongKind

namespace Resolve

def announced (expression value : String) : Play String := do
  info ("Resolved " ++ expression ++ " = \"" ++ value ++ "\"")
  return value

/-- The compact JSON form of a text that is JSON, and any other text unchanged. -/
def normalizeJson (inner text : String) : Play String := do
  match Json.parse text with
  | .error _ => announced ("fromJSON(" ++ inner ++ ")") text
  | .ok parsed =>
    let value ← fit (Json.text .compact parsed)
    info ("Resolved fromJSON(" ++ inner ++ ") = " ++ value)
    return value

def fromSource (workflow : Mapping) (expression : String) : Source → Play String
  | .menu options => do
    announced expression (← choose ("Select value for '" ++ expression ++ "':") options)
  | .input name => do
    announced expression (← freeText ("Enter value for input '" ++ name ++ "'") "my-value")
  | .secret name => do
    let value ← secret ("Enter value for secret '" ++ name ++ "'")
    modify fun s => { s with secrets := s.secrets.register value }
    info ("Resolved " ++ expression ++ " = \"***\"")
    return value
  | .environment name => do
    match ← adopt (environmentValue? workflow name) with
    | some value => announced expression (← fit value.expressionText)
    | none =>
      announced expression
        (← freeText ("Enter value for environment variable '" ++ name ++ "'") "value")
  | .suggestion text default => do announced expression (← freeText text default)
  | .output job name => do
    match (← get).context.jobOutput? (.str job) name with
    | some value =>
      info ("Using job output: " ++ job ++ "." ++ name ++ " = \"" ++ value ++ "\"")
      return value
    | none =>
      announced expression
        (← freeText ("Enter value for job output '" ++ expression ++ "'") "output-value")
  | _ => do announced expression (← freeText ("Enter value for '" ++ expression ++ "'") "value")

end Resolve

/-- The value of an expression: the one it has kept, or a new one that it keeps from now on. -/
def resolve (workflow : Mapping) (expression : String) : Play String := do
  match Table.find? expression (← get).context.resolved with
  | some value => return value
  | none =>
    let value ← match h : Source.of expression with
      | .json inner => do
        have : inner.length < expression.length := Source.length_lt_of_json h
        let inside := String.ofList inner
        Resolve.normalizeJson inside (← resolve workflow inside)
      | source => Resolve.fromSource workflow expression source
    modifyContext (Context.remember expression value)
    return value
termination_by expression.length
decreasing_by simpa using this

/-- The value of a step output of the job: the recorded one, or else one that the user gives, which
is not kept. -/
def resolveStepOutput (job : Scalar) (expression : String) : Play String := do
  let context := (← get).context
  match Reference.step? expression with
  | some (step, name) =>
    if let some value := context.stepOutput? job step name then return value
  | none => pure ()
  freeText ("Enter value for step output '" ++ expression ++ "'") "output-value"

structure Scope where
  workflow : Mapping
  job : Scalar
  matrix : Mapping := []

def Scope.binding? (scope : Scope) (expression : String) : Option Value := do
  let key ← Text.rest? "matrix." expression
  Table.find? (.str key) scope.matrix

def substitute (scope : Scope) (expression : String) : Play String := do
  match scope.binding? expression with
  | some bound => Resolve.announced expression (← fit bound.expressionText)
  | none =>
    if Text.startsWith expression "steps." && Text.contains expression ".outputs." then
      let value ← resolveStepOutput scope.job expression
      if let some (step, name) := Reference.step? expression then
        info ("Using step output: " ++ step ++ "." ++ name ++ " = \"" ++ value ++ "\"")
      return value
    else resolve scope.workflow expression

/-- Replaces the placeholders of the expressions in a text, one expression after the other. Each
value takes the place of the first placeholder of its expression that has single spaces. -/
def fillWith (scope : Scope) (step : String) : (expressions : List String) → (text : List Char) →
    Play (List Char)
  | [], text => return text
  | expression :: rest, text => do
    let value ← substitute scope expression
    debug ("[" ++ step ++ "] substituting " ++ expression)
    fillWith scope step rest
      (Text.replaceFirst (Expression.Placeholder.of expression) value.toList text)

/-- Replaces the placeholders in a text. The step is named in log records. -/
def fill (scope : Scope) (step : String) (text : String) : Play String := do
  return String.ofList (← fillWith scope step (Expression.Placeholder.extract text) text.toList)

def fillValue (scope : Scope) (step : String) (value : Value) : Play String := do
  fill scope step (← fit value.expressionText)

/-- The value of an output that a job exports: a step output if the text is its placeholder, and
otherwise the text with its placeholders replaced. -/
def resolveJobOutput (scope : Scope) (value : Value) : Play String := do
  let text ← fit value.expressionText
  if Text.contains text "steps." && Text.contains text ".outputs." then
    if let some (step, name) := Reference.stepPlaceholder? text then
      match (← get).context.stepOutput? scope.job step name with
      | some recorded =>
        info ("Using step output for job output: " ++ step ++ "." ++ name ++ " = \"" ++ recorded ++
          "\"")
        return recorded
      | none =>
        return ← freeText ("Enter value for step output '" ++ text ++ "'") "output-value"
  fill scope "job-outputs" text

end Rehearsal
