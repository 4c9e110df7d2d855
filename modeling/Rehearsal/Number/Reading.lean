import Rehearsal.Number.Shortest
import Rehearsal.Text.Blank
import Rehearsal.Text.Digit

/-! Numerals may use the decimal digits of any script and single underscores between digits.
Integers are limited to `maxDigits` decimal digits in both directions. -/

namespace Rehearsal.Numeral

open Rehearsal.Text

def maxDigits : Nat := 4300

/-- Removes the underscores of a numeral, each of which stands between two digits. -/
def joinDigits? (afterDigit : Bool) : List Char → Option (List Char)
  | [] => some []
  | '_' :: s =>
    match s with
    | c :: _ => if afterDigit && isDecimalDigit c then joinDigits? false s else none
    | [] => none
  | c :: s => (joinDigits? (isDecimalDigit c) s).map (c :: ·)

def takeSign : List Char → Bool × List Char
  | '-' :: s => (true, s)
  | '+' :: s => (false, s)
  | s => (false, s)

/-- The values of the decimal digits at the start, and what follows them. -/
def takeDigits : List Char → List Nat × List Char
  | [] => ([], [])
  | c :: s =>
    match digitValue? c with
    | some d => let (ds, rest) := takeDigits s; (d :: ds, rest)
    | none => ([], c :: s)

/-- The double nearest to `digits * 10 ^ exponent`. Exponents far out of range are not computed. -/
def nearestDouble (negative : Bool) (digits : Nat) (exponent : Int) : Double :=
  if digits = 0 then .finite negative 0
  else
    let size : Int := exponent + (Nat.toDigits 10 digits).length
    if 400 < size then .infinite negative
    else if size < -400 then .finite negative 0
    else match exponent with
      | .ofNat e => .ofRatio negative (digits * Nat.pow 10 e) 1
      | .negSucc e => .ofRatio negative digits (Nat.pow 10 (e + 1))

def exponent? : List Char → Option Int
  | [] => some 0
  | c :: s =>
    if c = 'e' ∨ c = 'E' then
      let (negative, s) := takeSign s
      match takeDigits s with
      | ([], _) => none
      | (ds, []) => some (if negative then -(numeral 10 ds : Int) else numeral 10 ds)
      | _ => none
    else none

/-- Reads an unsigned decimal numeral with an optional fraction and exponent. -/
def unsigned? (negative : Bool) (s : List Char) : Option Double := do
  let (whole, s) := takeDigits s
  let (fraction, s) := match s with
    | '.' :: s => takeDigits s
    | s => ([], s)
  if whole.isEmpty && fraction.isEmpty then none
  else
    let e ← exponent? s
    return nearestDouble negative (numeral 10 (whole ++ fraction)) (e - fraction.length)

/-- Reads a double: a decimal numeral or the name of a special value, between blanks. -/
def double? (s : List Char) : Option Double := do
  let s ← joinDigits? false (trim s)
  let (negative, s) := takeSign s
  let name := String.ofList (s.map Char.toLower)
  if name = "inf" ∨ name = "infinity" then return .infinite negative
  else if name = "nan" then return .nan
  else unsigned? negative s

def digitIn? (base : Nat) (c : Char) : Option Nat := do
  let d ← (digitValue? c).orElse fun _ =>
    if 'a' ≤ c ∧ c ≤ 'f' then some (c.toNat - 'a'.toNat + 10)
    else if 'A' ≤ c ∧ c ≤ 'F' then some (c.toNat - 'A'.toNat + 10)
    else none
  if d < base then some d else none

def dropBaseMark (base : Nat) : List Char → List Char
  | '0' :: c :: s =>
    if (base = 2 ∧ (c = 'b' ∨ c = 'B')) ∨ (base = 8 ∧ (c = 'o' ∨ c = 'O')) ∨
        (base = 16 ∧ (c = 'x' ∨ c = 'X')) then s
    else '0' :: c :: s
  | s => s

/-- Reads an integer in a base between blanks. Only decimal numerals are limited in length. -/
def integer? (base : Nat) (s : List Char) : Option Int := do
  let (negative, s) := takeSign (trim s)
  let s ← joinDigits? false (dropBaseMark base s)
  let ds ← s.mapM (digitIn? base)
  if ds.isEmpty ∨ (base = 10 ∧ maxDigits < ds.length) then none
  else return if negative then -(numeral base ds : Int) else numeral base ds

def text? (i : Int) : Option String :=
  if Nat.pow 10 maxDigits ≤ i.natAbs then none
  else
    let digits := Nat.toDigits 10 i.natAbs
    some (String.ofList (if i < 0 then '-' :: digits else digits))

end Rehearsal.Numeral
