import Rehearsal.Variable.Resolve

/-! A matrix of a job is expanded to the bindings of its instances: every choice of one value for
each axis, the last axis changing first, without those that an excluded entry matches, and then the
included entries. -/

namespace Rehearsal

open Play

namespace Matrix

/-- Every choice of one value for each axis, the last axis changing first. -/
def choices : List (Scalar × List Value) → List Mapping
  | [] => [[]]
  | (key, values) :: axes =>
    values.flatMap fun value => (choices axes).map fun rest => (key, value) :: rest

def agrees (bindings entry : Mapping) : Bool :=
  entry.all fun (key, value) =>
    match Table.find? key bindings with
    | some bound => bound.same value
    | none => false

/-- The bindings of all instances, given the axes and the excluded and included entries. -/
def combinations (axes : List (Scalar × List Value)) (excluded included : List Mapping) :
    List Mapping :=
  (if axes.isEmpty then []
    else (choices axes).filter fun bindings => !excluded.any (agrees bindings)) ++ included

def mappings (items : List Value) : List Mapping := items.filterMap Value.mapping?

/-- The value of an expression text: what its JSON says, or the resolved text. -/
def resolveJson (scope : Scope) (text : String) : Play Value := do
  let resolved ← fill scope "matrix" text
  match Json.parse resolved with
  | .ok value => return value
  | .error _ => return .str resolved

def statedEntries (scope : Scope) (value : Value) : Play (List Mapping) := do
  let value ← match value with
    | .str text => resolveJson scope text
    | value => pure value
  match value.opened with
  | .list items => return mappings items
  | _ => return []

/-- The values of an axis: those of a list, and one for any other value. -/
def axisValues (scope : Scope) (value : Value) : Play (List Value) := do
  let value ← match value with
    | .str text =>
      if Text.contains text "$\x7b\x7b" then resolveJson scope text else pure value
    | value => pure value
  match value.opened with
  | .list items => return items
  | _ => return [value]

def isReserved (key : Scalar) : Bool := key == .str "include" || key == .str "exclude"

def logCombinations (combinations : List Mapping) : Play Unit := do
  info ("[MATRIX] Matrix combinations (" ++ toString combinations.length ++ "):")
  for (bindings, i) in combinations.zipIdx do
    info (toString (i + 1) ++ ". " ++ (← fit (Json.text .airy (.map bindings))))

def expandMapping (scope : Scope) (matrix : Mapping) : Play (List Mapping) := do
  let included ← statedEntries scope ((Table.find? (.str "include") matrix).getD .null)
  let excluded ← statedEntries scope ((Table.find? (.str "exclude") matrix).getD .null)
  let axes ← (matrix.filter fun (key, _) => !isReserved key).mapM fun (key, value) => do
    return (key, ← axisValues scope value)
  let result := combinations axes excluded included
  if result.isEmpty then
    warning ("Matrix for job '" ++ (← fit scope.job.plain) ++
      "' has no combinations; no instances will run")
    return []
  else
    logCombinations result
    return result

/-- The bindings of the instances of a job. Without a matrix there is one instance without
bindings. -/
def expand (scope : Scope) (matrix : Value) : Play (List Mapping) := do
  if !matrix.isPresent then return [[]]
  let matrix ← match matrix with
    | .str text => resolveJson scope text
    | value => pure value
  match matrix.opened with
  | .list items =>
    let result := mappings items
    logCombinations result
    return result
  | .map entries => expandMapping scope entries
  | value =>
    warning ("Ignoring matrix of unsupported type " ++ value.kindName)
    return [[]]

def describe (bindings : Mapping) : Except Unfit String := Json.text .compact (.map bindings)

end Matrix
end Rehearsal
