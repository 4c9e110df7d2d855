import Rehearsal.Expression.Basic
import Rehearsal.Fault

/-! An expression is evaluated from left to right. `lookup` gives the values of references and may
change a state; of the operands of `&&` and `||` the right one is evaluated only if it decides. -/

namespace Rehearsal

abbrev Functions := String → Option (List Operand → Except Fault Operand)

abbrev Evaluation (σ α : Type) := ExceptT Fault (StateM σ) α

namespace Evaluation

variable {σ α : Type}

def adopt : Except Fault α → Evaluation σ α
  | .ok a => pure a
  | .error fault => throw fault

def truth (operand : Operand) : Evaluation σ Bool := adopt (orUnfit operand.value.truthy)

end Evaluation

namespace Operator

def compare (op : Operator) (left right : Operand) : Except Unfit Bool :=
  match op with
  | ne => (left.looseEq right).map (!·)
  | order o => o.holds left.value right.value
  | _ => left.looseEq right

end Operator

namespace Expr

variable {σ : Type}

mutual

def evaluate (functions : Functions) (lookup : String → Evaluation σ Operand) :
    Expr → Evaluation σ Operand
  | literal value => pure (.fresh (.scalar value))
  | reference path => lookup path
  | call name arguments =>
    match functions name with
    | none => throw (.evaluation (.unknownFunction name))
    | some function => do
      let operands ← evaluateAll functions lookup arguments
      Evaluation.adopt (function operands)
  | not operand => do
    let value ← evaluate functions lookup operand
    return .fresh (.bool (!(← Evaluation.truth value)))
  | binary .and left right => do
    let value ← evaluate functions lookup left
    if ← Evaluation.truth value then evaluate functions lookup right else return value
  | binary .or left right => do
    let value ← evaluate functions lookup left
    if ← Evaluation.truth value then return value else evaluate functions lookup right
  | binary op left right => do
    let first ← evaluate functions lookup left
    let second ← evaluate functions lookup right
    return .fresh (.bool (← Evaluation.adopt (orUnfit (op.compare first second))))

def evaluateAll (functions : Functions) (lookup : String → Evaluation σ Operand) :
    List Expr → Evaluation σ (List Operand)
  | [] => pure []
  | e :: es => do
    let value ← evaluate functions lookup e
    return value :: (← evaluateAll functions lookup es)

end

end Expr

namespace Functions

def constant (b : Bool) : List Operand → Except Fault Operand
  | [] => .ok (.fresh (.bool b))
  | _ => .error .arity

/-- A test of two strings. It fails for other values and for arguments that are left out. -/
def stringTest (test : List Char → List Char → Bool) : List Operand → Except Fault Operand
  | [text, searched] =>
    match text.value, searched.value with
    | .str s, .str t => .ok (.fresh (.bool (test s.toList t.toList)))
    | _, _ => .ok (.fresh (.bool false))
  | [] => .ok (.fresh (.bool false))
  | [_] => .ok (.fresh (.bool false))
  | _ => .error .arity

def fromJson : List Operand → Except Fault Operand
  | [operand] =>
    match operand.value with
    | .str text =>
      match Json.parse text with
      | .ok value => .ok (.fresh value)
      | .error _ => .error (.evaluation .invalidJson)
    | _ => .ok operand
  | _ => .error .arity

def toJson : List Operand → Except Fault Operand
  | [operand] => (orUnfit (Json.text .airy operand.value)).map fun text => .fresh (.str text)
  | _ => .error .arity

/-- The functions of conditions. A run knows no failed or cancelled jobs before the present one. -/
def builtin : Functions
  | "always" => some (constant true)
  | "success" => some (constant true)
  | "failure" => some (constant false)
  | "cancelled" => some (constant false)
  | "startsWith" => some (stringTest fun s t => t.isPrefixOf s)
  | "endsWith" => some (stringTest fun s t => t.isSuffixOf s)
  | "contains" => some (stringTest fun s t => Text.occurs t s)
  | "fromJSON" => some fromJson
  | "toJSON" => some toJson
  | _ => none

end Functions
end Rehearsal
