import Rehearsal.Text.Printable
import Rehearsal.Text.Surrogate
import Rehearsal.Value.Basic

/-! A value that appears in a sentence is written plainly: a string as it is, anything inside a
list, set or mapping quoted, so that the parts can be told apart. Not every value has a text. -/

namespace Rehearsal

/-- Why a value has no text or number of the wanted form. -/
inductive Unfit where
  | integerTooLong
  | integerOutOfRange
  | noJson
  | endless
  deriving DecidableEq, Repr

def hexadecimal (width n : Nat) : List Char :=
  let digits := Nat.toDigits 16 n
  List.replicate (width - digits.length) '0' ++ digits

namespace Scalar

def quotedChar (quote c : Char) : List Char :=
  if c = quote ∨ c = '\\' then ['\\', c]
  else if c = '\t' then ['\\', 't']
  else if c = '\n' then ['\\', 'n']
  else if c = '\r' then ['\\', 'r']
  else if Text.isPrintable c then [c]
  else
    let n := Text.code c
    if n < 0x100 then '\\' :: 'x' :: hexadecimal 2 n
    else if n < 0x10000 then '\\' :: 'u' :: hexadecimal 4 n
    else '\\' :: 'U' :: hexadecimal 8 n

/-- A string in single quotes, or in double quotes if it holds single ones only. -/
def quotedText (s : String) : String :=
  let cs := s.toList
  let quote := if cs.contains '\'' && !cs.contains '"' then '"' else '\''
  String.ofList (quote :: cs.flatMap (quotedChar quote) ++ [quote])

def quotedByte (quote : Char) (b : UInt8) : List Char :=
  let c := Char.ofNat b.toNat
  if c = quote ∨ c = '\\' then ['\\', c]
  else if c = '\t' then ['\\', 't']
  else if c = '\n' then ['\\', 'n']
  else if c = '\r' then ['\\', 'r']
  else if 0x20 ≤ b.toNat ∧ b.toNat < 0x7f then [c]
  else '\\' :: 'x' :: hexadecimal 2 b.toNat

def quotedBytes (bytes : List UInt8) : String :=
  let cs := bytes.map fun b => Char.ofNat b.toNat
  let quote := if cs.contains '\'' && !cs.contains '"' then '"' else '\''
  String.ofList ('b' :: quote :: bytes.flatMap (quotedByte quote) ++ [quote])

def momentParts (m : Moment) : List Nat :=
  let parts := [m.date.year, m.date.month, m.date.day, m.hour, m.minute]
  if m.microsecond ≠ 0 then parts ++ [m.second, m.microsecond]
  else if m.second ≠ 0 then parts ++ [m.second]
  else parts

def zoneText (offset : Int) : String :=
  if offset = 0 then "datetime.timezone.utc"
  else
    let seconds := offset * 60
    let days := if seconds < 0 then "days=-1, seconds=" ++ toString (seconds + 86400)
      else "seconds=" ++ toString seconds
    "datetime.timezone(datetime.timedelta(" ++ days ++ "))"

def quoted : Scalar → Except Unfit String
  | null => .ok "None"
  | bool b => .ok (if b then "True" else "False")
  | int i => match Numeral.text? i with
    | some s => .ok s
    | none => .error .integerTooLong
  | float d => .ok (d.text .plain)
  | str s => .ok (quotedText s)
  | date d =>
    .ok ("datetime.date(" ++ ", ".intercalate ([d.year, d.month, d.day].map toString) ++ ")")
  | moment m =>
    let zone := match m.offset with
      | none => []
      | some offset => ["tzinfo=" ++ zoneText offset]
    .ok ("datetime.datetime(" ++ ", ".intercalate ((momentParts m).map toString ++ zone) ++ ")")
  | bytes b => .ok (quotedBytes b)

def plain : Scalar → Except Unfit String
  | str s => .ok s
  | date d => .ok d.text
  | moment m => .ok (m.text " ")
  | s => s.quoted

end Scalar

namespace Value

mutual

def quoted : Value → Except Unfit String
  | scalar s => s.quoted
  | list items => do return "[" ++ ", ".intercalate (← quotedItems items) ++ "]"
  | map entries => do return "\x7b" ++ ", ".intercalate (← quotedEntries entries) ++ "\x7d"
  | set [] => .ok "set()"
  | set members => do
    return "\x7b" ++ ", ".intercalate (← members.mapM Scalar.quoted) ++ "\x7d"
  | pair key value => do return "(" ++ (← quoted key) ++ ", " ++ (← quoted value) ++ ")"
  | again (map _) => .ok "\x7b...\x7d"
  | again _ => .ok "[...]"

def quotedItems : List Value → Except Unfit (List String)
  | [] => .ok []
  | x :: xs => do
    let text ← quoted x
    return text :: (← quotedItems xs)

def quotedEntries : List (Scalar × Value) → Except Unfit (List String)
  | [] => .ok []
  | (k, x) :: xs => do
    let key ← k.quoted
    let text ← quoted x
    return (key ++ ": " ++ text) :: (← quotedEntries xs)

end

def plain : Value → Except Unfit String
  | scalar s => s.plain
  | v => v.opened.quoted

end Value
end Rehearsal
