import Rehearsal.Number.Double

/-! `Double.shortest` finds the fewest significant digits that read back as a given double, and
among the decimals with that many digits the nearest one. `Double.text` lays them out. -/

namespace Rehearsal

structure Decimal where
  digits : Nat
  exponent : Int
  deriving DecidableEq, Repr

namespace Double

/-- The decimals that read back as a double, as bounds in quarters of a unit. -/
structure Reach where
  low : Nat
  high : Nat
  closed : Bool

/-- The neighbourhood of a finite double that rounds to it. The gap below a power of two is half
the gap above it. -/
def reach (units : Nat) : Reach :=
  let step := Nat.pow 2 (spacing units)
  let narrow := decide (units = Nat.pow 2 52 * step ∧ 1 < step)
  { low := 4 * units - (if narrow then step else 2 * step)
    high := 4 * units + 2 * step
    closed := (units / step) % 2 == 0 }

def quartersOfPower (exponent : Int) : Nat × Nat :=
  match exponent with
  | .ofNat e => (4 * one * Nat.pow 10 e, 1)
  | .negSucc e => (4 * one, Nat.pow 10 (e + 1))

def Reach.contains (r : Reach) (d : Decimal) : Bool :=
  let (num, den) := quartersOfPower d.exponent
  let value := d.digits * num
  if r.closed then r.low * den ≤ value ∧ value ≤ r.high * den
  else r.low * den < value ∧ value < r.high * den

/-- The nearest decimal with the given exponent that reads back as `units`, if there is one; a tie
goes to the even digit. -/
def onGrid? (units : Nat) (exponent : Int) : Option Decimal :=
  let (num, den) := quartersOfPower exponent
  let below := 4 * units * den / num
  let low : Decimal := ⟨below, exponent⟩
  let high : Decimal := ⟨below + 1, exponent⟩
  let near := if nearest (4 * units * den) num = below then low else high
  let far := if nearest (4 * units * den) num = below then high else low
  if (reach units).contains near then some near
  else if (reach units).contains far then some far
  else none

/-- The exponent of the first significant digit of a positive number of units. -/
def leadingExponent (units : Nat) : Int :=
  let estimate : Int := ((Nat.log2 units : Int) - 1074) * 30103 / 100000
  let fits (e : Int) : Bool :=
    let (num, den) := quartersOfPower e
    num ≤ 4 * units * den
  if fits (estimate + 2) then estimate + 2
  else if fits (estimate + 1) then estimate + 1
  else if fits estimate then estimate
  else estimate - 1

/-- The first of the grids with 1, 2, ... significant digits that has a decimal reading back. -/
def shortest (units : Nat) : Decimal :=
  let top := leadingExponent units
  ((List.range 17).findSome? fun n : Nat => onGrid? units (top - n)).getD ⟨units, -1074⟩

/-- How digits are laid out: the exponents that are written positionally, and the texts of the
special values. -/
structure Layout where
  /-- The exponent of the leading digit below which an exponent is written. -/
  leastPositional : Int
  /-- The exponent of the leading digit from which an exponent is written. -/
  leastScientific : Int
  exponentWidth : Nat
  nan : String
  infinity : String

/-- The layout of numbers in text: `1.0`, `0.0001`, `1e-05`, `1e+16`, `nan`, `inf`. -/
def Layout.plain : Layout := ⟨-4, 16, 2, "nan", "inf"⟩

/-- The layout of numbers in JSON, which differs in the special values. -/
def Layout.json : Layout := { Layout.plain with nan := "NaN", infinity := "Infinity" }

def trimZeros (digits : List Char) : List Char :=
  (digits.reverse.dropWhile (· == '0')).reverse

def Layout.decimal (l : Layout) (d : Decimal) : List Char :=
  let written := Nat.toDigits 10 d.digits
  let digits := trimZeros written
  let leading : Int := d.exponent + written.length - 1
  if leading < l.leastPositional ∨ l.leastScientific ≤ leading then
    let mantissa := match digits with
      | first :: second :: rest => first :: '.' :: second :: rest
      | short => short
    let size := Nat.toDigits 10 leading.natAbs
    mantissa ++ ['e', if leading < 0 then '-' else '+'] ++
      List.replicate (l.exponentWidth - size.length) '0' ++ size
  else if leading < 0 then
    '0' :: '.' :: List.replicate (leading.natAbs - 1) '0' ++ digits
  else
    let whole := leading.natAbs + 1
    let fraction := digits.drop whole
    digits.take whole ++ List.replicate (whole - digits.length) '0' ++
      '.' :: (if fraction.isEmpty then ['0'] else fraction)

def text (l : Layout) : Double → String
  | nan => l.nan
  | infinite negative => (if negative then "-" else "") ++ l.infinity
  | finite negative units =>
    let size := if units = 0 then ['0', '.', '0'] else l.decimal (shortest units)
    String.ofList (if negative then '-' :: size else size)

end Double
end Rehearsal
