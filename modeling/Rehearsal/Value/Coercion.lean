import Rehearsal.Json.Render
import Rehearsal.Text.Search

/-! The conversions of the expression language, and the comparisons built on them. -/

namespace Rehearsal

namespace Value

/-- Null, false, zero, not-a-number and the empty string are false and all other values true. -/
def truthy : Value → Except Unfit Bool
  | null => .ok false
  | bool b => .ok b
  | int i =>
    if i = 0 then .ok false
    else match Double.ofInt? i with
      | some _ => .ok true
      | none => .error .integerOutOfRange
  | float d => .ok (d.isNonzero && !d.isNaN)
  | str s => .ok (s != "")
  | _ => .ok true

/-- The number that a value counts as; not-a-number where it counts as none. -/
def number : Value → Except Unfit Double
  | null => .ok Double.zero
  | bool b => .ok (.finite false (if b then Double.one else 0))
  | int i => (Double.ofInt? i).elim (.error .integerOutOfRange) .ok
  | float d => .ok d
  | str s =>
    match Text.trim s.toList with
    | [] => .ok Double.zero
    | text => .ok ((Numeral.double? text).getD .nan)
  | _ => .ok .nan

def expressionText : Value → Except Unfit String
  | null => .ok ""
  | bool b => .ok (if b then "true" else "false")
  | int i => match Numeral.text? i with
    | some s => .ok s
    | none => .error .integerTooLong
  | float d => .ok (d.text .plain)
  | str s => .ok s
  | v => Json.text .compact v

def isCollection (v : Value) : Bool :=
  match v.opened with
  | list _ => true
  | map _ => true
  | _ => false

end Value

/-- A value during evaluation, with the place where it is kept. Collections are equal only to
themselves, so the place decides about their equality. -/
structure Operand where
  value : Value
  /-- The reference that the value was read from; none for a value that was just made. -/
  place : Option String
  deriving Inhabited

namespace Operand

def fresh (v : Value) : Operand := ⟨v, none⟩

def isKeptWith (a b : Operand) : Bool := a.place.isSome && a.place == b.place

/-- Equality in expressions: of strings by their text, of collections by their place, and of all
else by number. -/
def looseEq (a b : Operand) : Except Unfit Bool :=
  match a.value, b.value with
  | .str s, .str t => .ok (s == t)
  | .null, .null => .ok true
  | v, w =>
    if v.isCollection || w.isCollection then .ok (a.isKeptWith b)
    else do
      let m ← v.number
      let n ← w.number
      return m.eq n

end Operand

inductive Order where
  | lt
  | le
  | gt
  | ge
  deriving DecidableEq, Repr

namespace Order

def ofTexts : Order → String → String → Bool
  | lt, s, t => decide (Text.codes s < Text.codes t)
  | le, s, t => !decide (Text.codes t < Text.codes s)
  | gt, s, t => decide (Text.codes t < Text.codes s)
  | ge, s, t => !decide (Text.codes s < Text.codes t)

def ofNumbers : Order → Double → Double → Bool
  | lt, m, n => m.lt n
  | le, m, n => m.le n
  | gt, m, n => n.lt m
  | ge, m, n => n.le m

/-- The order between values: of strings by their text and of all else by number. -/
def holds (o : Order) (v w : Value) : Except Unfit Bool :=
  match v, w with
  | .str s, .str t => .ok (o.ofTexts s t)
  | v, w => do
    let m ← v.number
    let n ← w.number
    return o.ofNumbers m n

end Order
end Rehearsal
