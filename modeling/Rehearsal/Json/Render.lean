import Rehearsal.Text.Surrogate
import Rehearsal.Value.Text

/-! Values are written in their order, with every character beyond printable ASCII escaped. Dates,
bytes and sets have no JSON form, nor has a collection that contains itself. -/

namespace Rehearsal.Json

structure Spacing where
  item : List Char
  key : List Char

def Spacing.compact : Spacing := ⟨[','], [':']⟩

def Spacing.airy : Spacing := ⟨[',', ' '], [':', ' ']⟩

def unitEscape (n : Nat) : List Char := '\\' :: 'u' :: hexadecimal 4 n

def escape (c : Char) : List Char :=
  let n := Text.code c
  if c = '"' then ['\\', '"']
  else if c = '\\' then ['\\', '\\']
  else if c = '\n' then ['\\', 'n']
  else if c = '\r' then ['\\', 'r']
  else if c = '\t' then ['\\', 't']
  else if n = 8 then ['\\', 'b']
  else if n = 12 then ['\\', 'f']
  else if 0x20 ≤ n ∧ n < 0x7f then [c]
  else if n < 0x10000 then unitEscape n
  else unitEscape (0xd800 + (n - 0x10000) / 0x400) ++ unitEscape (0xdc00 + (n - 0x10000) % 0x400)

def string (s : String) : List Char := '"' :: s.toList.flatMap escape ++ ['"']

def bare : Scalar → Except Unfit (List Char)
  | .null => .ok "null".toList
  | .bool b => .ok (if b then "true" else "false").toList
  | .int i => match Numeral.text? i with
    | some s => .ok s.toList
    | none => .error .integerTooLong
  | .float d => .ok (d.text .json).toList
  | .str s => .ok s.toList
  | _ => .error .noJson

def scalar : Scalar → Except Unfit (List Char)
  | .str s => .ok (string s)
  | s => bare s

def key (k : Scalar) : Except Unfit (List Char) := do
  return string (String.ofList (← bare k))

mutual

def render (spacing : Spacing) : Value → Except Unfit (List Char)
  | .scalar s => scalar s
  | .list [] => .ok ['[', ']']
  | .list (x :: xs) => do
    let first ← render spacing x
    return '[' :: first ++ (← renderItems spacing xs)
  | .map [] => .ok ['\x7b', '\x7d']
  | .map ((k, x) :: xs) => do
    let name ← key k
    let first ← render spacing x
    return '\x7b' :: name ++ spacing.key ++ first ++ (← renderEntries spacing xs)
  | .set _ => .error .noJson
  | .pair key value => do
    let first ← render spacing key
    let second ← render spacing value
    return '[' :: first ++ spacing.item ++ second ++ [']']
  | .again _ => .error .endless

def renderItems (spacing : Spacing) : List Value → Except Unfit (List Char)
  | [] => .ok [']']
  | x :: xs => do
    let text ← render spacing x
    return spacing.item ++ text ++ (← renderItems spacing xs)

def renderEntries (spacing : Spacing) : List (Scalar × Value) → Except Unfit (List Char)
  | [] => .ok ['\x7d']
  | (k, x) :: xs => do
    let name ← key k
    let text ← render spacing x
    return spacing.item ++ name ++ spacing.key ++ text ++ (← renderEntries spacing xs)

end

def text (spacing : Spacing) (v : Value) : Except Unfit String :=
  (render spacing v.opened).map String.ofList

end Rehearsal.Json
