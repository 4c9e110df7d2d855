/-! A `Double` is a 64-bit binary floating point number. A finite one is written as a whole number
of units of `2 ^ -1074`, the distance between the smallest ones, so that order and equality are
those of integers and nothing is hidden in machine words. `ofRatio` rounds to the nearest of them.
-/

namespace Rehearsal

/-- A double: not a number, an infinity, or a sign and a count of units of `2 ^ -1074`. -/
inductive Double where
  | nan
  | infinite (negative : Bool)
  | finite (negative : Bool) (units : Nat)
  deriving DecidableEq, Repr, Inhabited

namespace Double

def one : Nat := Nat.pow 2 1074

def limit : Nat := Nat.pow 2 2098

/-- The integer nearest to `num / den`; of two equally near ones the even one. -/
def nearest (num den : Nat) : Nat :=
  let quotient := num / den
  let rest := num % den
  if 2 * rest < den ∨ (2 * rest = den ∧ quotient % 2 = 0) then quotient else quotient + 1

def spacing (units : Nat) : Nat := Nat.log2 units - 52

/-- The double nearest to `num / den` units; the even one of two, infinite beyond the range. -/
def ofUnitRatio (negative : Bool) (num den : Nat) : Double :=
  let step := Nat.pow 2 (spacing (num / den))
  let units := nearest num (den * step) * step
  if units < limit then finite negative units else infinite negative

def ofRatio (negative : Bool) (num den : Nat) : Double :=
  ofUnitRatio negative (num * one) den

def finite? : Double → Option Double
  | finite negative units => some (finite negative units)
  | _ => none

/-- The double nearest to an integer; none if the integer is out of range. -/
def ofInt? (i : Int) : Option Double := finite? (ofRatio (decide (i < 0)) i.natAbs 1)

def zero : Double := finite false 0

/-- The place of a number in the order of doubles, in units; not-a-number has none. -/
def rank? : Double → Option Int
  | nan => none
  | infinite negative => some (if negative then -limit else limit)
  | finite negative units => some (if negative then -units else units)

def isNaN (d : Double) : Bool := d.rank?.isNone

/-- Numerical comparison by a relation of ranks; not-a-number stands in no relation. -/
def related (r : Int → Int → Bool) (a b : Double) : Bool :=
  match a.rank?, b.rank? with
  | some i, some j => r i j
  | _, _ => false

def eq (a b : Double) : Bool := related (fun i j => decide (i = j)) a b

theorem eq_self_or_isNaN (d : Double) : d.eq d = true ∨ d.isNaN = true := by
  unfold eq related isNaN
  cases d.rank? with
  | none => exact .inr rfl
  | some i => exact .inl (by simp)

def lt (a b : Double) : Bool := related (fun i j => decide (i < j)) a b

def le (a b : Double) : Bool := related (fun i j => decide (i ≤ j)) a b

def eqInt (d : Double) (i : Int) : Bool := d.rank? == some (i * one)

def isNonzero (d : Double) : Bool := d.rank? != some 0

def toInt? : Double → Option Int
  | finite negative units =>
    if units % one = 0 then
      let size : Int := (units / one : Nat)
      some (if negative then -size else size)
    else none
  | _ => none

def neg : Double → Double
  | nan => nan
  | infinite negative => infinite (!negative)
  | finite negative units => finite (!negative) units

def signed (negative : Bool) (units : Nat) : Int := if negative then -(units : Int) else units

def add : Double → Double → Double
  | nan, _ => nan
  | _, nan => nan
  | infinite a, infinite b => if a = b then infinite a else nan
  | infinite a, _ => infinite a
  | _, infinite b => infinite b
  | finite a m, finite b n =>
    let sum : Int := signed a m + signed b n
    ofUnitRatio (if sum = 0 then a && b else decide (sum < 0)) sum.natAbs 1

/-- The product with a positive integer, rounded to the nearest double. -/
def times (factor : Nat) : Double → Double
  | finite negative units => ofUnitRatio negative (units * factor) 1
  | d => d

end Double
end Rehearsal
