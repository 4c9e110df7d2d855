import Rehearsal.Yaml.Cursor

/-! The tag of a node tells what it stands for. A plain scalar without tag is recognized by its
text: numbers in several bases and with underscores, truth values, dates, null, and strings for the
rest. The words `on` and `off` are strings. -/

namespace Rehearsal.Yaml

inductive Tag where
  | null
  | bool
  | int
  | float
  | binary
  | timestamp
  | orderedMap
  | pairs
  | set
  | str
  | seq
  | map
  | merge
  | value
  | other (name : String)
  deriving DecidableEq, Repr

namespace Tag

def standard : String := "tag:yaml.org,2002:"

def names : List (String × Tag) :=
  [("null", null), ("bool", bool), ("int", int), ("float", float), ("binary", binary),
    ("timestamp", timestamp), ("omap", orderedMap), ("pairs", pairs), ("set", set), ("str", str),
    ("seq", seq), ("map", map), ("merge", merge), ("value", value)]

def ofName (name : String) : Tag :=
  ((names.find? fun (n, _) => standard ++ n == name).map (·.2)).getD (other name)

end Tag

namespace Plain

def isBool (s : String) : Bool :=
  ["yes", "Yes", "YES", "no", "No", "NO", "true", "True", "TRUE", "false", "False",
    "FALSE"].contains s

def isNull (s : String) : Bool := ["", "~", "null", "Null", "NULL"].contains s

def isDigit (c : Char) : Bool := c.isDigit

def isSpaced (c : Char) : Bool := c.isDigit || c == '_'

def unsigned : List Char → List Char
  | '+' :: s => s
  | '-' :: s => s
  | s => s

/-- Whether a text is one or more parts of a number to the base sixty, each after a colon, and then
what `last` accepts. -/
def isSexagesimal (last : List Char → Bool) : List Char → Bool
  | ':' :: c :: d :: s =>
    (c.isDigit && ((last (d :: s)) || isSexagesimal last (d :: s))) ||
      ('0' ≤ c && c ≤ '5' && d.isDigit && (last s || isSexagesimal last s))
  | [':', c] => c.isDigit && last []
  | _ => false

def isInt (s : List Char) : Bool :=
  let s := unsigned s
  match s with
  | '0' :: 'b' :: c :: rest => (c :: rest).all fun c => c == '0' || c == '1' || c == '_'
  | '0' :: 'x' :: c :: rest =>
    (c :: rest).all fun c => c.isDigit || ('a' ≤ c && c ≤ 'f') || ('A' ≤ c && c ≤ 'F') || c == '_'
  | '0' :: rest => rest.all fun c => ('0' ≤ c && c ≤ '7') || c == '_'
  | c :: rest =>
    '1' ≤ c && c ≤ '9' &&
      ((rest.dropWhile isSpaced).isEmpty || isSexagesimal List.isEmpty (rest.dropWhile isSpaced))
  | [] => false

def isExponent : List Char → Bool
  | [] => true
  | e :: sign :: c :: s =>
    (e == 'e' || e == 'E') && (sign == '+' || sign == '-') && (c :: s).all isDigit
  | _ => false

def isFraction : List Char → Bool
  | '.' :: s => isExponent (s.dropWhile isSpaced)
  | _ => false

def isBareFraction : List Char → Bool
  | '.' :: s => s.all isSpaced
  | _ => false

/-- Whether a text is a number with a point, or one of the words for special numbers. -/
def isFloat (s : List Char) : Bool :=
  let u := unsigned s
  [".inf", ".Inf", ".INF"].contains (String.ofList u) ||
    [".nan", ".NaN", ".NAN"].contains (String.ofList s) ||
    (match s with
      | '.' :: c :: rest => c.isDigit && isExponent (rest.dropWhile isSpaced)
      | _ => false) ||
    (match u with
      | c :: rest =>
        let rest := rest.dropWhile isSpaced
        c.isDigit && (isFraction rest || isSexagesimal isBareFraction rest)
      | [] => false)

end Plain

/-- The parts of a date or a moment as they are written. -/
structure Timestamp where
  year : List Char
  month : List Char
  day : List Char
  time : Option (List Char × List Char × List Char × List Char) := none
  /-- The sign, hours and minutes of the distance from universal time, or no sign for none. -/
  zone : Option (Option Char × List Char × List Char) := none
  deriving Repr

namespace Timestamp

def digits? (least most : Nat) (s : List Char) : Option (List Char × List Char) :=
  let taken := (s.take most).takeWhile Char.isDigit
  if taken.length < least then none else some (taken, s.drop taken.length)

def char? (c : Char) : List Char → Option (List Char)
  | d :: s => if c == d then some s else none
  | [] => none

def isSpace (c : Char) : Bool := c == ' ' || c == '\t'

def zone? (s : List Char) : Option (Option (Option Char × List Char × List Char)) :=
  match s with
  | [] => some none
  | _ =>
    match s.dropWhile isSpace with
    | ['Z'] => some (some (none, [], []))
    | c :: s =>
      if c == '+' || c == '-' then do
        let (hours, s) ← digits? 1 2 s
        match s with
        | [] => return some (some c, hours, [])
        | _ =>
          let (minutes, s) ← digits? 2 2 (← char? ':' s)
          if s.isEmpty then return some (some c, hours, minutes) else none
      else none
    | [] => none

def time? (date : Timestamp) (s : List Char) : Option Timestamp := do
  let s ← match s with
    | 'T' :: s => some s
    | 't' :: s => some s
    | c :: s => if isSpace c then some (s.dropWhile isSpace) else none
    | [] => none
  let (hour, s) ← digits? 1 2 s
  let (minute, s) ← digits? 2 2 (← char? ':' s)
  let (second, s) ← digits? 2 2 (← char? ':' s)
  let (fraction, s) := match s with
    | '.' :: s => (s.takeWhile Char.isDigit, s.dropWhile Char.isDigit)
    | s => ([], s)
  return { date with time := some (hour, minute, second, fraction), zone := ← zone? s }

def parse? (s : List Char) : Option Timestamp := do
  let (year, s) ← digits? 4 4 s
  let (month, s) ← digits? 1 2 (← char? '-' s)
  let (day, s) ← digits? 1 2 (← char? '-' s)
  let date : Timestamp := { year, month, day }
  if s.isEmpty then return date else time? date s

/-- Whether a plain scalar is a date. A date without time has two digits for month and day. -/
def isPlain (s : List Char) : Bool :=
  match parse? s with
  | some t => t.time.isSome || (t.month.length == 2 && t.day.length == 2)
  | none => false

end Timestamp

def withoutLineFeed (s : List Char) : List Char := if s.getLast? = some '\n' then s.dropLast else s

/-- The tag of a text that is recognized. A line feed may follow it, but is no text by itself. -/
def Tag.ofPlain (text : String) : Tag :=
  let s := if text == "\n" then ['\n'] else withoutLineFeed text.toList
  let word := String.ofList s
  if Plain.isBool word then .bool
  else if Plain.isFloat s then .float
  else if Plain.isInt s then .int
  else if word == "<<" then .merge
  else if Plain.isNull word then .null
  else if Timestamp.isPlain s then .timestamp
  else if word == "=" then .value
  else .str

end Rehearsal.Yaml
