import Rehearsal.Table

/-! Integers of 64 bits with the usual operators. Variables stand for the numbers that they hold. -/

namespace Rehearsal.Shell.Arithmetic

/-- What an expression is about: the value of a variable. -/
abbrev Lookup := List Char → Int

def levels : List (List String) := [
  ["||"], ["&&"], ["|"], ["^"], ["&"], ["==", "!="], ["<=", ">=", "<", ">"], ["<<", ">>"],
  ["+", "-"], ["*", "/", "%"], ["**"]]

def ofBool (b : Bool) : Int := if b then 1 else 0

def wrap (i : Int) : Int := Int.bmod i (Nat.pow 2 64)

def apply (operator : String) (a b : Int) : Option Int :=
  match operator with
  | "||" => some (ofBool (a ≠ 0 || b ≠ 0))
  | "&&" => some (ofBool (a ≠ 0 && b ≠ 0))
  | "==" => some (ofBool (a = b))
  | "!=" => some (ofBool (a ≠ b))
  | "<=" => some (ofBool (a ≤ b))
  | ">=" => some (ofBool (a ≥ b))
  | "<" => some (ofBool (a < b))
  | ">" => some (ofBool (a > b))
  | "+" => some (wrap (a + b))
  | "-" => some (wrap (a - b))
  | "*" => some (wrap (a * b))
  | "/" => if b = 0 then none else some (wrap (Int.tdiv a b))
  | "%" => if b = 0 then none else some (Int.tmod a b)
  | "**" => if b < 0 then none else some (wrap (Int.pow a (b.toNat % 65536)))
  | "|" => some (BitVec.ofInt 64 a ||| BitVec.ofInt 64 b).toInt
  | "&" => some (BitVec.ofInt 64 a &&& BitVec.ofInt 64 b).toInt
  | "^" => some (BitVec.ofInt 64 a ^^^ BitVec.ofInt 64 b).toInt
  | "<<" => some (wrap (a * (Nat.pow 2 (b % 64).toNat : Nat)))
  | ">>" => some (Int.fdiv a (Nat.pow 2 (b % 64).toNat : Nat))
  | _ => none

def skipBlanks (s : List Char) : List Char := s.dropWhile Char.isWhitespace

/-- The operator of a level at the start. A longer operator is not taken for a shorter one. -/
def operator? (level : List String) (s : List Char) : Option (String × List Char) :=
  let longer := ["**", "||", "&&", "==", "!=", "<=", ">=", "<<", ">>"]
  let next := match longer.find? fun o => o.toList.isPrefixOf s with
    | some o => o
    | none => String.ofList (s.take 1)
  if level.contains next then some (next, s.drop next.length) else none

/-- The number in a text of digits, with the usual marks of base 8 and 16. -/
def literal (digits : List Char) : Option Int :=
  let value (base : Nat) (ds : List Char) : Option Int := do
    let ns ← ds.mapM fun c =>
      let n :=
        if c.isDigit then c.toNat - '0'.toNat
        else if 'a' ≤ c ∧ c ≤ 'f' then c.toNat - 'a'.toNat + 10
        else if 'A' ≤ c ∧ c ≤ 'F' then c.toNat - 'A'.toNat + 10
        else base
      if n < base then some n else none
    return wrap (ns.foldl (fun n d => n * base + d) 0 : Nat)
  match digits with
  | '0' :: 'x' :: ds => value 16 ds
  | '0' :: 'X' :: ds => value 16 ds
  | '0' :: d :: ds => value 8 (d :: ds)
  | ds => value 10 ds

mutual

/-- The value of an expression of operators of some levels, and what follows it. -/
def binary (lookup : Lookup) : (fuel : Nat) → List (List String) → List Char →
    Option (Int × List Char)
  | 0, _, _ => none
  | fuel + 1, [], s => unary lookup fuel s
  | fuel + 1, level :: stronger, s => do
    let (a, s) ← binary lookup fuel stronger s
    further lookup fuel level stronger a s

def further (lookup : Lookup) : (fuel : Nat) → List String → List (List String) → Int →
    List Char → Option (Int × List Char)
  | 0, _, _, _, _ => none
  | fuel + 1, level, stronger, a, s =>
    match operator? level (skipBlanks s) with
    | none => some (a, s)
    | some (o, s) => do
      let (b, s) ← binary lookup fuel stronger s
      further lookup fuel level stronger (← apply o a b) s

def unary (lookup : Lookup) : (fuel : Nat) → List Char → Option (Int × List Char)
  | 0, _ => none
  | fuel + 1, s =>
    match skipBlanks s with
    | '-' :: s => do
      let (a, s) ← unary lookup fuel s
      return (wrap (-a), s)
    | '+' :: s => unary lookup fuel s
    | '!' :: s => do
      let (a, s) ← unary lookup fuel s
      return (ofBool (a = 0), s)
    | '~' :: s => do
      let (a, s) ← unary lookup fuel s
      return (-a - 1, s)
    | '(' :: s => do
      let (a, s) ← choice lookup fuel s
      match skipBlanks s with
      | ')' :: s => return (a, s)
      | _ => none
    | c :: s =>
      if c.isDigit then do
        let digits := (c :: s).takeWhile Char.isAlphanum
        return (← literal digits, (c :: s).drop digits.length)
      else if c.isAlpha || c = '_' then
        let isName (c : Char) : Bool := c.isAlphanum || c == '_'
        some (lookup ((c :: s).takeWhile isName), (c :: s).dropWhile isName)
      else none
    | [] => none

def choice (lookup : Lookup) : (fuel : Nat) → List Char → Option (Int × List Char)
  | 0, _ => none
  | fuel + 1, s => do
    let (a, s) ← binary lookup fuel levels s
    match skipBlanks s with
    | '?' :: s =>
      let (yes, s) ← choice lookup fuel s
      match skipBlanks s with
      | ':' :: s =>
        let (no, s) ← choice lookup fuel s
        return (if a ≠ 0 then yes else no, s)
      | _ => none
    | s => return (a, s)

end

def value? (lookup : Lookup) (s : List Char) : Option Int :=
  if (skipBlanks s).isEmpty then some 0
  else do
    let (a, rest) ← choice lookup (16 * s.length + 32) s
    if (skipBlanks rest).isEmpty then some a else none

end Rehearsal.Shell.Arithmetic
