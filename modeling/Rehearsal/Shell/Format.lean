import Rehearsal.Number.Reading
import Rehearsal.Shell.Machine

/-! Escapes behind backslashes, and formats with directives that are filled with arguments. -/

namespace Rehearsal.Shell.Format

open Rehearsal.Text

/-- The digits of a base at the start of a text, at most a number of them. -/
def digits (base : Nat) : (most : Nat) → List Char → List Nat × List Char
  | most + 1, c :: s =>
    match Numeral.digitIn? base c with
    | some d => let (ds, rest) := digits base most s; (d :: ds, rest)
    | none => ([], c :: s)
  | _, s => ([], s)

def utf8 (c : Char) : List UInt8 := (String.singleton c).toUTF8.toList

/-- The bytes that the text behind a backslash stands for, and what follows; none ends the output.
In some texts an octal number needs a zero before its three digits. -/
def escape (zero : Bool) : List Char → Option (List UInt8 × List Char)
  | 'c' :: s => if zero then none else some ([92, 99], s)
  | 'a' :: s => some ([7], s)
  | 'b' :: s => some ([8], s)
  | 'e' :: s => some ([27], s)
  | 'E' :: s => some ([27], s)
  | 'f' :: s => some ([12], s)
  | 'n' :: s => some ([10], s)
  | 'r' :: s => some ([13], s)
  | 't' :: s => some ([9], s)
  | 'v' :: s => some ([11], s)
  | '\\' :: s => some ([92], s)
  | 'x' :: s =>
    match digits 16 2 s with
    | ([], s) => some ([92, 120], s)
    | (ds, s) => some ([(numeral 16 ds).toUInt8], s)
  | 'u' :: s =>
    match digits 16 4 s with
    | ([], s) => some ([92, 117], s)
    | (ds, s) => some (utf8 (Char.ofNat (numeral 16 ds)), s)
  | 'U' :: s =>
    match digits 16 8 s with
    | ([], s) => some ([92, 85], s)
    | (ds, s) => some (utf8 (Char.ofNat (numeral 16 ds)), s)
  | c :: s =>
    if zero && c == '0' then
      let (ds, s) := digits 8 3 s
      some ([(numeral 8 ds).toUInt8], s)
    else if !zero && '0' ≤ c && c ≤ '7' then
      let (ds, s) := digits 8 3 (c :: s)
      some ([(numeral 8 ds).toUInt8], s)
    else if !zero && (c == '\x22' || c == '\x27' || c == '?') then some (utf8 c, s)
    else some (92 :: utf8 c, s)
  | [] => some ([92], [])

def unescape (zero : Bool) : (fuel : Nat) → List Char → List UInt8 × Bool
  | 0, _ => ([], false)
  | _ + 1, [] => ([], false)
  | fuel + 1, '\\' :: s =>
    match escape zero s with
    | none => ([], true)
    | some (bytes, rest) =>
      let (more, ended) := unescape zero fuel rest
      (bytes ++ more, ended)
  | fuel + 1, c :: s =>
    let (more, ended) := unescape zero fuel s
    (utf8 c ++ more, ended)

/-- How a directive wants its argument to be laid out. -/
structure Layout where
  left : Bool := false
  zeros : Bool := false
  plus : Bool := false
  space : Bool := false
  alternative : Bool := false
  width : Nat := 0
  precision : Option Nat := none

def flags (l : Layout) : List Char → Layout × List Char
  | '-' :: s => flags { l with left := true } s
  | '0' :: s => flags { l with zeros := true } s
  | '+' :: s => flags { l with plus := true } s
  | ' ' :: s => flags { l with space := true } s
  | '#' :: s => flags { l with alternative := true } s
  | s => (l, s)

def Layout.field (l : Layout) (body : List UInt8) : List UInt8 :=
  let gap := List.replicate (l.width - body.length) 32
  if l.left then body ++ gap else gap ++ body

def Layout.number (l : Layout) (sign body : String) : List UInt8 :=
  let body := match l.precision with
    | some n => String.ofList (List.replicate (n - body.length) '0') ++ body
    | none => body
  let zeros :=
    if l.zeros && !l.left && l.precision.isNone then l.width - sign.length - body.length else 0
  l.field (sign ++ String.ofList (List.replicate zeros '0') ++ body).toUTF8.toList

def Layout.sign (l : Layout) (negative : Bool) : String :=
  if negative then "-" else if l.plus then "+" else if l.space then " " else ""

/-- The number that an argument is, and whether all of it is a number. A quote stands for the
number of the character behind it. -/
def integer (argument : String) : Int × Bool :=
  match argument.toList with
  | [] => (0, true)
  | q :: s =>
    if q = '\x22' ∨ q = '\x27' then ((s.head?.map fun c => (c.toNat : Int)).getD 0, true)
    else
      let (negative, s) := Numeral.takeSign ((q :: s).dropWhile Char.isWhitespace)
      let (base, s) := match s with
        | '0' :: 'x' :: s => (16, s)
        | '0' :: 'X' :: s => (16, s)
        | '0' :: s => (8, '0' :: s)
        | s => (10, s)
      let (ds, rest) := digits base s.length s
      let n : Int := numeral base ds
      (if negative then -n else n, rest.isEmpty && !ds.isEmpty)

/-- A decimal fraction as a whole number of units of a power of ten, rounded half to even. -/
def fixed (places : Nat) (argument : String) : Option (Bool × String) := do
  let (negative, s) := Numeral.takeSign argument.toList
  let (whole, s) := digits 10 s.length s
  let (fraction, s) := match s with
    | '.' :: s => digits 10 s.length s
    | s => ([], s)
  if !s.isEmpty then none
  else
    let scaled := numeral 10 (whole ++ fraction) * Nat.pow 10 places
    let unit := Nat.pow 10 fraction.length
    let (q, r) := (scaled / unit, scaled % unit)
    let n := if 2 * r > unit || (2 * r == unit && q % 2 == 1) then q + 1 else q
    let text := Nat.toDigits 10 n
    let text := List.replicate (places + 1 - text.length) '0' ++ text
    let (a, b) := text.splitAt (text.length - places)
    return (negative, String.ofList (if places = 0 then a else a ++ '.' :: b))

def unsigned (i : Int) : Nat := (Int.emod i (Nat.pow 2 64 : Nat)).toNat

def quoted (s : String) : String :=
  let isPlain (c : Char) : Bool := c.isAlphanum || "_@%+=:,./-".toList.contains c
  if s.isEmpty then "\x27\x27"
  else String.ofList (s.toList.flatMap fun c => if isPlain c then [c] else ['\\', c])

structure Filled where
  bytes : List UInt8 := []
  left : List String := []
  /-- The arguments that are no numbers where a number is asked for. -/
  complaints : List String := []
  ended : Bool := false
  asked : Bool := false

def directive (l : Layout) (kind : Char) (argument : String) : Option (List UInt8 × Option Bool) :=
  let fit (text : String) : String := match l.precision with
    | some n => String.ofList (text.toList.take n)
    | none => text
  let (i, clean) := integer argument
  let radix (base : Nat) (mark : String) (upper : Bool) : List UInt8 :=
    let n := unsigned i
    let text := String.ofList (Nat.toDigits base n)
    l.number (if l.alternative && n ≠ 0 then mark else "") (if upper then text.toUpper else text)
  match kind with
  | 's' => some (l.field (fit argument).toUTF8.toList, none)
  | 'q' => some (l.field (quoted argument).toUTF8.toList, none)
  | 'c' => some (l.field (String.ofList (argument.toList.take 1)).toUTF8.toList, none)
  | 'b' =>
    let (bytes, ended) := unescape true (argument.length + 1) argument.toList
    some (l.field bytes, if ended then some true else none)
  | 'd' | 'i' =>
    some (l.number (l.sign (i < 0)) (String.ofList (Nat.toDigits 10 i.natAbs)), some clean)
  | 'u' => some (l.number "" (String.ofList (Nat.toDigits 10 (unsigned i))), some clean)
  | 'x' => some (radix 16 "0x" false, some clean)
  | 'X' => some (radix 16 "0X" true, some clean)
  | 'o' => some (radix 8 "0" false, some clean)
  | 'f' | 'F' =>
    let l' := { l with precision := none }
    match fixed (l.precision.getD 6) argument with
    | some (negative, text) => some (l'.number (l.sign negative) text, some true)
    | none => some (l'.number "" "0.000000", some false)
  | _ => none

def fill : (fuel : Nat) → List Char → Filled → Filled
  | 0, _, f => f
  | _ + 1, [], f => f
  | fuel + 1, '\\' :: s, f =>
    match escape false s with
    | some (bytes, rest) => fill fuel rest { f with bytes := f.bytes ++ bytes }
    | none => { f with ended := true }
  | fuel + 1, '%' :: '%' :: s, f => fill fuel s { f with bytes := f.bytes ++ [37] }
  | fuel + 1, '%' :: s, f =>
    let next (f : Filled) : String × Filled :=
      (f.left.head?.getD "", { f with left := f.left.tail, asked := true })
    let (l, s) := flags {} s
    let (l, s, f) := match s with
      | '*' :: s =>
        let (argument, f) := next f
        let w := (integer argument).1
        ({ l with width := w.natAbs, left := l.left || w < 0 }, s, f)
      | s => let (ds, s) := digits 10 s.length s; ({ l with width := numeral 10 ds }, s, f)
    let (l, s, f) := match s with
      | '.' :: '*' :: s =>
        let (argument, f) := next f
        let p := (integer argument).1
        ({ l with precision := if p < 0 then none else some p.toNat }, s, f)
      | '.' :: s =>
        let (ds, s) := digits 10 s.length s
        ({ l with precision := some (numeral 10 ds) }, s, f)
      | s => (l, s, f)
    match s with
    | [] => { f with complaints := f.complaints ++ ["missing format character"], ended := true }
    | kind :: s =>
      let (argument, f) := next f
      match directive l kind argument with
      | none =>
        let complaint := "\x60" ++ String.singleton kind ++ "': invalid format character"
        { f with complaints := f.complaints ++ [complaint], ended := true }
      | some (bytes, verdict) =>
        let f := { f with bytes := f.bytes ++ bytes }
        match kind, verdict with
        | 'b', some true => { f with ended := true }
        | _, some false =>
          fill fuel s { f with complaints := f.complaints ++ [argument ++ ": invalid number"] }
        | _, _ => fill fuel s f
  | fuel + 1, c :: s, f => fill fuel s { f with bytes := f.bytes ++ utf8 c }

def fillAll (format : List Char) : (fuel : Nat) → Filled → Filled
  | 0, f => f
  | fuel + 1, f =>
    let f := fill (format.length + 1) format { f with asked := false }
    if f.ended || f.left.isEmpty || !f.asked then f else fillAll format fuel f

def render (format : String) (arguments : List String) : List UInt8 × List String :=
  let f := fillAll format.toList (arguments.length + 1) { left := arguments }
  (f.bytes, f.complaints)

/-- The options of a line to be shown, and its words: whether it ends with a line feed and whether
its escapes count. -/
def lineOptions (feed escapes : Bool) : List String → Bool × Bool × List String
  | word :: rest =>
    match word.toList with
    | '-' :: c :: cs =>
      if (c :: cs).all fun c => c = 'n' ∨ c = 'e' ∨ c = 'E' then
        let feed := feed && !(c :: cs).contains 'n'
        let escapes := (c :: cs).foldl (fun b c => if c = 'e' then true else if c = 'E' then false
          else b) escapes
        lineOptions feed escapes rest
      else (feed, escapes, word :: rest)
    | _ => (feed, escapes, word :: rest)
  | [] => (feed, escapes, [])

def line (arguments : List String) : List UInt8 :=
  let (feed, escapes, words) := lineOptions true false arguments
  let text := " ".intercalate words
  if escapes then
    let (bytes, ended) := unescape true (text.length + 1) text.toList
    bytes ++ if feed && !ended then [10] else []
  else text.toUTF8.toList ++ if feed then [10] else []

end Rehearsal.Shell.Format
