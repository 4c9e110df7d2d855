import Rehearsal.Text.Search
import Rehearsal.Text.Surrogate
import Rehearsal.Value.Basic

/-! Strict JSON, with the names of the special doubles. A numeral with a fraction or an exponent is
a double and any other one an integer; of two equal keys the first place and the last value stay.
As for expressions, the limit that a stack sets on depth is left out. -/

namespace Rehearsal.Json

inductive Refusal where
  | malformed
  | integerTooLong
  deriving DecidableEq, Repr

abbrev Reading (α : Type) := Except Refusal (α × List Char)

def skip (s : List Char) : List Char :=
  s.dropWhile fun c => c = ' ' || c = '\t' || c = '\n' || c = '\r'

def hex4? (a b c d : Char) : Option Nat := do
  let digit (c : Char) : Option Nat :=
    if c.toNat < 0x80 then Numeral.digitIn? 16 c else none
  return ((← digit a) * 16 + (← digit b)) * 256 + (← digit c) * 16 + (← digit d)

/-- The UTF-16 units and characters of a string up to its closing quote. -/
def stringUnits : List Char → Reading (List Nat)
  | [] => .error .malformed
  | '"' :: s => .ok ([], s)
  | '\\' :: 'u' :: a :: b :: c :: d :: s =>
    match hex4? a b c d with
    | some unit => (stringUnits s).map fun (units, rest) => (unit :: units, rest)
    | none => .error .malformed
  | '\\' :: c :: s =>
    let meant : Option Nat :=
      if c = '"' ∨ c = '\\' ∨ c = '/' then some c.toNat
      else if c = 'b' then some 8
      else if c = 'f' then some 12
      else if c = 'n' then some 10
      else if c = 'r' then some 13
      else if c = 't' then some 9
      else none
    match meant with
    | some unit => (stringUnits s).map fun (units, rest) => (unit :: units, rest)
    | none => .error .malformed
  | c :: s =>
    if c = '\\' ∨ c.toNat < 0x20 then .error .malformed
    else (stringUnits s).map fun (units, rest) => (c.toNat :: units, rest)

def joinUnits : List Nat → List Char
  | [] => []
  | [n] => [Text.ofCode n]
  | n :: m :: rest =>
    if Text.isLead n && Text.isTrail m then Text.ofPair n m :: joinUnits rest
    else Text.ofCode n :: joinUnits (m :: rest)

def stringBody (s : List Char) : Reading String :=
  (stringUnits s).map fun (units, rest) => (String.ofList (joinUnits units), rest)

def isAsciiDigit (c : Char) : Bool := '0' ≤ c && c ≤ '9'

/-- The whole part of a numeral: a zero, or digits that start with another one. -/
def wholePart? : List Char → Option (List Char × List Char)
  | '0' :: s => some (['0'], s)
  | c :: s =>
    if isAsciiDigit c then some (c :: s.takeWhile isAsciiDigit, s.dropWhile isAsciiDigit) else none
  | [] => none

def fractionPart : List Char → List Char × List Char
  | '.' :: c :: s =>
    if isAsciiDigit c then ('.' :: c :: s.takeWhile isAsciiDigit, s.dropWhile isAsciiDigit)
    else ([], '.' :: c :: s)
  | s => ([], s)

def exponentPart : List Char → List Char × List Char
  | [] => ([], [])
  | e :: s =>
    if e = 'e' ∨ e = 'E' then
      let (sign, digits) := match s with
        | '+' :: s => (['+'], s)
        | '-' :: s => (['-'], s)
        | s => ([], s)
      match digits.takeWhile isAsciiDigit with
      | [] => ([], e :: s)
      | ds => (e :: sign ++ ds, digits.dropWhile isAsciiDigit)
    else ([], e :: s)

def number (negative : Bool) (s : List Char) : Reading Value :=
  match wholePart? s with
  | none => .error .malformed
  | some (whole, s) =>
    let (fraction, s) := fractionPart s
    let (exponent, s) := exponentPart s
    if fraction.isEmpty && exponent.isEmpty then
      match Numeral.integer? 10 whole with
      | some i => .ok (.int (if negative then -i else i), s)
      | none => .error .integerTooLong
    else
      match Numeral.unsigned? negative (whole ++ fraction ++ exponent) with
      | some d => .ok (.float d, s)
      | none => .error .malformed

def words : List (List Char × Value) :=
  [("null".toList, .null), ("true".toList, .bool true), ("false".toList, .bool false),
    ("NaN".toList, .float .nan), ("Infinity".toList, .float (.infinite false)),
    ("-Infinity".toList, .float (.infinite true))]

def atom (s : List Char) : Reading Value :=
  match words.findSome? fun (word, v) => (Text.after? word s).map fun rest => (v, rest) with
  | some reading => .ok reading
  | none =>
    match s with
    | '-' :: s => number true s
    | s => number false s

mutual

def value : (fuel : Nat) → List Char → Reading Value
  | 0, _ => .error .malformed
  | _ + 1, '"' :: s => (stringBody s).map fun (text, rest) => (.str text, rest)
  | fuel + 1, '[' :: s =>
    match skip s with
    | ']' :: s => .ok (.list [], s)
    | s => (items fuel s).map fun (vs, rest) => (.list vs, rest)
  | fuel + 1, '\x7b' :: s =>
    match skip s with
    | '\x7d' :: s => .ok (.map [], s)
    | s => (entries fuel s).map fun (kvs, rest) => (.map (Table.ofList kvs), rest)
  | _ + 1, s => atom s

def items : (fuel : Nat) → List Char → Except Refusal (List Value × List Char)
  | 0, _ => .error .malformed
  | fuel + 1, s => do
    let (v, s) ← value fuel s
    match skip s with
    | ']' :: s => return ([v], s)
    | ',' :: s =>
      let (vs, rest) ← items fuel (skip s)
      return (v :: vs, rest)
    | _ => .error .malformed

def entries : (fuel : Nat) → List Char → Except Refusal (List (Scalar × Value) × List Char)
  | 0, _ => .error .malformed
  | fuel + 1, '"' :: s => do
    let (name, s) ← stringBody s
    match skip s with
    | ':' :: s =>
      let (v, s) ← value fuel (skip s)
      match skip s with
      | '\x7d' :: s => return ([(.str name, v)], s)
      | ',' :: s =>
        let (kvs, rest) ← entries fuel (skip s)
        return ((.str name, v) :: kvs, rest)
      | _ => .error .malformed
    | _ => .error .malformed
  | _ + 1, _ => .error .malformed

end

def parse (text : String) : Except Refusal Value := do
  let s := text.toList
  let (v, rest) ← value (2 * s.length + 2) (skip s)
  if (skip rest).isEmpty then return v else .error .malformed

end Rehearsal.Json
