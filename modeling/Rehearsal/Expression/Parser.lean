import Rehearsal.Expression.Basic
import Rehearsal.Expression.Token

/-! Operators of one level associate to the left and a looser level is parsed before a tighter one.
Every function takes the tokens that are left and gives back those after what it read. There is no
limit on depth: the one that a stack sets depends on the caller and on settings. -/

namespace Rehearsal.Expression

def keyword? : String → Option Scalar
  | "true" => some (.bool true)
  | "false" => some (.bool false)
  | "null" => some .null
  | _ => none

/-- The constant that a numeral stands for: an integer unless it has a point or is out of range. -/
def numberLiteral (text : String) : Scalar :=
  let d := (Numeral.double? text.toList).getD .nan
  if text.toList.contains '.' then .float d
  else match d.toInt? with
    | some i => .int i
    | none => .float d

def Token.is (t : Token) (text : String) : Bool :=
  (t.kind == .operator || t.kind == .punctuation) && t.text == text

def accept? (text : String) : List Token → Option (List Token)
  | t :: ts => if t.is text then some ts else none
  | [] => none

def expect (text : String) (ts : List Token) : Except ParseError (List Token) :=
  match accept? text ts with
  | some rest => .ok rest
  | none => .error (.missing text ts.head?)

def acceptOperator? (ops : List Operator) (ts : List Token) : Option (Operator × List Token) :=
  ops.findSome? fun op => (accept? op.text ts).map (op, ·)

mutual

/-- Reads operations of the given levels, loosest first, or an operand if no level is left. -/
def operation : (fuel : Nat) → (levels : List (List Operator)) → List Token →
    Except ParseError (Expr × List Token)
  | 0, _, _ => .error .unexpectedEnd
  | fuel + 1, [], ts => operand fuel ts
  | fuel + 1, ops :: levels, ts => do
    let (left, rest) ← operation fuel levels ts
    chain fuel ops levels left rest

/-- Reads the further operands of a level and combines them with the one on the left. -/
def chain : (fuel : Nat) → (ops : List Operator) → (levels : List (List Operator)) → Expr →
    List Token → Except ParseError (Expr × List Token)
  | 0, _, _, _, _ => .error .unexpectedEnd
  | fuel + 1, ops, levels, left, ts =>
    match acceptOperator? ops ts with
    | none => .ok (left, ts)
    | some (op, ts) => do
      let (right, rest) ← operation fuel levels ts
      chain fuel ops levels (.binary op left right) rest

def operand : (fuel : Nat) → List Token → Except ParseError (Expr × List Token)
  | 0, _ => .error .unexpectedEnd
  | fuel + 1, ts =>
    match accept? "!" ts with
    | some ts => do
      let (e, rest) ← operand fuel ts
      return (.not e, rest)
    | none => primary fuel ts

/-- Reads a constant, a reference, a call or an expression in parentheses. -/
def primary : (fuel : Nat) → List Token → Except ParseError (Expr × List Token)
  | 0, _ => .error .unexpectedEnd
  | _ + 1, [] => .error .unexpectedEnd
  | fuel + 1, t :: ts =>
    match t.kind with
    | .quoted => .ok (.literal (.str (String.ofList (Quoted.unquote t.text.toList))), ts)
    | .number => .ok (.literal (numberLiteral t.text), ts)
    | .name =>
      match keyword? t.text with
      | some constant => .ok (.literal constant, ts)
      | none =>
        match accept? "(" ts with
        | none => .ok (.reference t.text, ts)
        | some ts =>
          if t.text.toList.contains '.' then .error (.functionName t.text)
          else match accept? ")" ts with
            | some ts => .ok (.call t.text [], ts)
            | none => do
              let (es, rest) ← arguments fuel ts
              return (.call t.text es, rest)
    | .operator => .error (.unexpected t)
    | .punctuation =>
      if t.text = "(" then do
        let (e, rest) ← operation fuel Operator.levels ts
        return (e, ← expect ")" rest)
      else .error (.unexpected t)

def arguments : (fuel : Nat) → List Token → Except ParseError (List Expr × List Token)
  | 0, _ => .error .unexpectedEnd
  | fuel + 1, ts => do
    let (e, rest) ← operation fuel Operator.levels ts
    match accept? "," rest with
    | some rest =>
      let (es, rest) ← arguments fuel rest
      return (e :: es, rest)
    | none => return ([e], ← expect ")" rest)

end

def enoughFuel (tokens : Nat) : Nat := 8 * tokens + 8

def parseTokens (ts : List Token) : Except ParseError Expr := do
  if ts.isEmpty then .error .empty
  let (e, rest) ← operation (enoughFuel ts.length) Operator.levels ts
  match rest with
  | [] => return e
  | t :: _ => .error (.unexpected t)

def parse (text : String) : Except ParseError Expr := do
  parseTokens (← tokenize text)

end Rehearsal.Expression
