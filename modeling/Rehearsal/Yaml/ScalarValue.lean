import Rehearsal.Text.Search
import Rehearsal.Value.Basic
import Rehearsal.Yaml.Tag

/-! A scalar stands for a value as its tag says. A text that its tag does not allow is refused. -/

namespace Rehearsal.Yaml

/-! ### Base 64

Bytes in base 64. Characters outside the alphabet are passed over.
-/

namespace Base64

def alphabet : List Char :=
  "ABCDEFGHIJKLMNOPQRSTUVWXYZabcdefghijklmnopqrstuvwxyz0123456789+/".toList

/-- The values of the characters up to a padding that completes a group of four; `pads` counts the
padding so far. -/
def sextets : (count pads : Nat) → List Char → List Nat
  | _, _, [] => []
  | count, pads, '=' :: s =>
    if 2 ≤ count % 4 ∧ 4 ≤ count % 4 + pads + 1 then [] else
      sextets count (if 2 ≤ count % 4 then pads + 1 else pads) s
  | count, pads, c :: s =>
    match alphabet.idxOf? c with
    | some value => value :: sextets (count + 1) 0 s
    | none => sextets count pads s

/-- Whether the characters make up whole groups of four with their padding. -/
def isPadded : (count pads : Nat) → List Char → Bool
  | count, _, [] => count % 4 == 0
  | count, pads, '=' :: s =>
    (2 ≤ count % 4 && 4 ≤ count % 4 + pads + 1) ||
      isPadded count (if 2 ≤ count % 4 then pads + 1 else pads) s
  | count, pads, c :: s =>
    if alphabet.contains c then isPadded (count + 1) 0 s else isPadded count pads s

def groups : List Nat → List UInt8
  | a :: b :: c :: d :: rest =>
    (a * 4 + b / 16).toUInt8 :: (b % 16 * 16 + c / 4).toUInt8 :: (c % 4 * 64 + d).toUInt8 ::
      groups rest
  | [a, b, c] => [(a * 4 + b / 16).toUInt8, (b % 16 * 16 + c / 4).toUInt8]
  | [a, b] => [(a * 4 + b / 16).toUInt8]
  | _ => []

def decode? (s : List Char) : Option (List UInt8) :=
  if isPadded 0 0 s then some (groups (sextets 0 0 s)) else none

end Base64

/-! ### Values -/

namespace Scalar

def takeSign (s : List Char) : Except Refusal (Bool × List Char) :=
  match s with
  | [] => .error .tooShort
  | '-' :: rest => .ok (true, rest)
  | '+' :: rest => .ok (false, rest)
  | _ => .ok (false, s)

def withSign (negative : Bool) (i : Int) : Int := if negative then -i else i

def orNumeral {α : Type} : Option α → Except Refusal α
  | some a => .ok a
  | none => .error .numeral

/-- An integer whose digits to the base sixty are written in decimal between colons. -/
def sexagesimal (s : List Char) : Except Refusal Int := do
  let parts ← orNumeral ((Text.splitOn ':' s).mapM (Numeral.integer? 10))
  return parts.foldl (fun n part => n * 60 + part) 0

def int (text : String) : Except Refusal Int := do
  let (negative, s) ← takeSign (text.toList.filter (· != '_'))
  let size ← match s with
    | [] => throw .tooShort
    | ['0'] => pure 0
    | '0' :: 'b' :: rest => orNumeral (Numeral.integer? 2 rest)
    | '0' :: 'x' :: rest => orNumeral (Numeral.integer? 16 rest)
    | '0' :: _ => orNumeral (Numeral.integer? 8 s)
    | _ => if s.contains ':' then sexagesimal s else orNumeral (Numeral.integer? 10 s)
  return withSign negative size

/-- The sum of digits to the base sixty, the last one first. The weight of a digit is rounded to a
double, and is refused if it is beyond the range of doubles. -/
def sumOfDigits : (weight : Nat) → List Double → Double → Except Refusal Double
  | _, [], sum => .ok sum
  | weight, digit :: rest, sum =>
    match (Double.ofInt? weight).bind Double.toInt? with
    | none => .error .overflow
    | some factor => sumOfDigits (weight * 60) rest (sum.add (digit.times factor.toNat))

def float (text : String) : Except Refusal Double := do
  let (negative, s) ← takeSign ((text.toList.filter (· != '_')).map Char.toLower)
  let size ←
    if s == ".inf".toList then pure (Double.infinite false)
    else if s == ".nan".toList then pure .nan
    else if s.contains ':' then do
      let parts ← orNumeral ((Text.splitOn ':' s).mapM Numeral.double?)
      sumOfDigits 1 parts.reverse Double.zero
    else orNumeral (Numeral.double? s)
  return if negative then size.neg else size

def bool (text : String) : Except Refusal Bool :=
  let word := String.ofList (text.toList.map Char.toLower)
  if ["yes", "true", "on"].contains word then .ok true
  else if ["no", "false", "off"].contains word then .ok false
  else .error .noEntry

def digits (s : List Char) : Nat := Text.numeral 10 (s.map fun c => c.toNat - '0'.toNat)

def microseconds (fraction : List Char) : Nat :=
  digits ((fraction ++ List.replicate 6 '0').take 6)

/-- A date, or a moment if a time of day is written. A line feed may follow it. -/
def timestamp (text : String) : Except Refusal Rehearsal.Scalar :=
  match Timestamp.parse? (withoutLineFeed text.toList) with
  | none => .error .noMatch
  | some t =>
    let date : Date := ⟨digits t.year, digits t.month, digits t.day⟩
    match t.time with
    | none => if date.isValid then .ok (.date date) else .error .numeral
    | some (hour, minute, second, fraction) =>
      let offset := t.zone.map fun (sign, hours, minutes) =>
        withSign (sign == some '-') (digits hours * 60 + digits minutes : Nat)
      let moment : Moment :=
        ⟨date, digits hour, digits minute, digits second, microseconds fraction, offset⟩
      if moment.isValid then .ok (.moment moment) else .error .numeral

def binary (text : String) : Except Refusal (List UInt8) :=
  if text.toList.all fun c => c.toNat < 0x80 then
    match Base64.decode? text.toList with
    | some bytes => .ok bytes
    | none => .error .malformed
  else .error .malformed

def isTag (tag : Tag) : Bool :=
  [Tag.null, .bool, .int, .float, .binary, .timestamp, .str].contains tag

def ofTag (tag : Tag) (text : String) : Except Refusal Rehearsal.Scalar :=
  match tag with
  | .null => .ok .null
  | .bool => (bool text).map .bool
  | .int => (int text).map .int
  | .float => (float text).map .float
  | .binary => (binary text).map .bytes
  | .timestamp => timestamp text
  | .str => .ok (.str text)
  | _ => .error .malformed

end Scalar

end Rehearsal.Yaml
