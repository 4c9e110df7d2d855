import Rehearsal.Value.Coercion

/-! The tree of an expression, its operators by how tightly they bind, and the references in it. -/

namespace Rehearsal

inductive Operator where
  | or
  | and
  | eq
  | ne
  | order (o : Order)
  deriving DecidableEq, Repr

namespace Operator

def text : Operator → String
  | or => "||"
  | and => "&&"
  | eq => "=="
  | ne => "!="
  | order .lt => "<"
  | order .le => "<="
  | order .gt => ">"
  | order .ge => ">="

def levels : List (List Operator) :=
  [[or], [and], [eq, ne], [order .lt, order .le, order .gt, order .ge]]

end Operator

/-- An expression: a constant, a dotted reference, a function call or an operation. -/
inductive Expr where
  | literal (value : Scalar)
  | reference (path : String)
  | call (function : String) (arguments : List Expr)
  | not (operand : Expr)
  | binary (op : Operator) (left right : Expr)
  deriving Repr, Inhabited

namespace Expr

mutual

def references : Expr → List String
  | literal _ => []
  | reference path => [path]
  | call _ arguments => referencesOfAll arguments
  | not operand => references operand
  | binary _ left right => references left ++ references right

def referencesOfAll : List Expr → List String
  | [] => []
  | e :: es => references e ++ referencesOfAll es

end

end Expr
end Rehearsal
