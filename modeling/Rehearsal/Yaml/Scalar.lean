import Rehearsal.Number.Reading
import Rehearsal.Text.Surrogate
import Rehearsal.Yaml.Cursor

/-! The four written forms of a scalar: in single or double quotes, plain, and as a block of lines.
Line ends inside the first three are folded: a single one counts as a space and further ones as line
feeds. -/

namespace Rehearsal.Yaml

abbrev Scanned := Except Refusal (List Char × Cursor)

/-! ### Quoted scalars -/

def shortEscapes : List (Char × Char) :=
  [('0', '\x00'), ('a', '\x07'), ('b', '\x08'), ('t', '\t'), ('\t', '\t'), ('n', '\n'),
    ('v', '\x0b'), ('f', '\x0c'), ('r', '\r'), ('e', '\x1b'), (' ', ' '), ('"', '"'), ('\\', '\\'),
    ('/', '/'), ('N', '\x85'), ('_', '\xa0'), ('L', '\u2028'), ('P', '\u2029')]

/-- The letters of escapes by number, with the number of hexadecimal digits after them. -/
def longEscapes : List (Char × Nat) := [('x', 2), ('u', 4), ('U', 8)]

def hexDigit? (c : Char) : Option Nat :=
  if c.toNat < 0x80 then Numeral.digitIn? 16 c else none

def charOfCode (n : Nat) : Except Refusal Char :=
  if n < 0x110000 then .ok (Text.ofCode n)
  else if n < 0x80000000 then .error .numeral
  else .error .overflow

def hexNumber? (digits : List Char) : Option Nat := (digits.mapM hexDigit?).map (Text.numeral 16)

/-- Reads the line ends and the blanks at the starts of the lines that follow in a quoted scalar. -/
def quotedBreaks : (fuel : Nat) → Cursor → Scanned
  | 0, _ => .error .malformed
  | fuel + 1, k =>
    if k.atSeparator then .error .malformed
    else
      let k := k.dropWhile fun c => c == ' ' || c == '\t'
      match k.lineBreak with
      | ([], _) => .ok ([], k)
      | (first, k) => (quotedBreaks fuel k).map fun (more, k) => (first ++ more, k)

def folded (first more : List Char) : List Char :=
  if first ≠ ['\n'] then first ++ more
  else if more.isEmpty then [' ']
  else more

def quotedSpaces (k : Cursor) : Scanned :=
  let (blanks, k) := k.takeWhile fun c => c == ' ' || c == '\t'
  match k.lineBreak with
  | ([], _) => .ok (blanks, k)
  | (first, k) => (quotedBreaks (k.rest.length + 1) k).map fun (more, k) => (folded first more, k)

def escape (k : Cursor) : Scanned :=
  match k.peek with
  | none => .error .malformed
  | some c =>
    match shortEscapes.lookup c with
    | some meant => .ok ([meant], k.next)
    | none =>
      match longEscapes.lookup c with
      | some count =>
        let digits := k.next.rest.take count
        match hexNumber? digits with
        | some n =>
          if digits.length < count then .error .malformed
          else (charOfCode n).map fun c => ([c], k.skip (count + 1))
        | none => .error .malformed
      | none =>
        if isBreak c then quotedBreaks (k.rest.length + 1) k.lineBreak.2 else .error .malformed

def quotedFrom (double : Bool) : (fuel : Nat) → Cursor → Scanned
  | 0, _ => .error .malformed
  | fuel + 1, k =>
    let further (read : Scanned) : Scanned := do
      let (text, k) ← read
      let (rest, k) ← quotedFrom double fuel k
      return (text ++ rest, k)
    match k.peek with
    | none => .error .malformed
    | some c =>
      if double && c == '"' then .ok ([], k.next)
      else if double && c == '\\' then further (escape k.next)
      else if !double && c == '\'' then
        if k.ahead 1 == some '\'' then further (.ok (['\''], k.skip 2)) else .ok ([], k.next)
      else if c == ' ' || c == '\t' || isBreak c then further (quotedSpaces k)
      else further (.ok ([c], k.next))

def quoted (double : Bool) (k : Cursor) : Scanned := quotedFrom double (k.rest.length + 1) k.next

/-! ### Plain scalars -/

/-- Whether a plain scalar ends before a character; `following` comes after it. -/
def endsPlain (inFlow : Bool) (c : Char) (following : Option Char) : Bool :=
  isGap (some c) ||
    (c == ':' && (isGap following ||
      (inFlow && following.any fun f => ",[]\x7b\x7d".toList.contains f))) ||
    (inFlow && ",?[]\x7b\x7d".toList.contains c)

def wordLength (inFlow : Bool) : List Char → Nat
  | [] => 0
  | c :: s => if endsPlain inFlow c s.head? then 0 else 1 + wordLength inFlow s

/-- Reads spaces and line ends after the first line end in a plain scalar. Nothing is read if a
separator of documents comes. -/
def plainBreaks : (fuel : Nat) → Cursor → Option (List Char) × Cursor
  | 0, k => (none, k)
  | fuel + 1, k =>
    if k.atSeparator && k.column == 0 then (none, k)
    else
      let k := k.skipSpaces
      match k.lineBreak with
      | ([], _) => (some [], k)
      | (first, k) =>
        let (more, k) := plainBreaks fuel k
        (more.map (first ++ ·), k)

/-- What stands between two words of a plain scalar, the place after it, and whether a line ended.
There is nothing if the scalar ends. -/
def plainSpaces (k : Cursor) : List Char × Cursor × Bool :=
  let (blanks, k) := k.takeWhile (· == ' ')
  match k.lineBreak with
  | ([], _) => (blanks, k, false)
  | (first, k) =>
    match plainBreaks (k.rest.length + 1) k with
    | (none, k) => ([], k, true)
    | (some more, k) => (folded first more, k, true)

structure Plain where
  text : List Char
  cursor : Cursor
  atLineStart : Bool

/-- Reads the words of a plain scalar; `indent` is the column that lines after the first one
reach. -/
def plainFrom (inFlow : Bool) (indent : Int) : (fuel : Nat) → (spaces : List Char) → Cursor →
    (atLineStart : Bool) → Plain
  | 0, _, k, atLineStart => ⟨[], k, atLineStart⟩
  | fuel + 1, spaces, k, atLineStart =>
    let length := wordLength inFlow k.rest
    if k.peek == some '#' || length == 0 then ⟨[], k, atLineStart⟩
    else
      let word := k.rest.take length
      let (more, after, ended) := plainSpaces (k.skip length)
      if more.isEmpty || after.peek == some '#' || (!inFlow && after.column < indent) then
        ⟨spaces ++ word, after, ended⟩
      else
        let rest := plainFrom inFlow indent fuel more after ended
        ⟨spaces ++ word ++ rest.text, rest.cursor, rest.atLineStart⟩

def plain (inFlow : Bool) (indent : Int) (k : Cursor) : Plain :=
  plainFrom inFlow indent (k.rest.length + 1) [] k false

/-! ### Block scalars -/

structure Header where
  /-- Whether line ends at the end are kept or removed; without a word, one is kept. -/
  keepsEnd : Option Bool := none
  increment : Option Nat := none

def endMark (k : Cursor) : Option Bool × Cursor :=
  match k.peek with
  | some '+' => (some true, k.next)
  | some '-' => (some false, k.next)
  | _ => (none, k)

def incrementMark (k : Cursor) : Except Refusal (Option Nat × Cursor) :=
  match k.peek with
  | some c =>
    if c == '0' then .error .malformed
    else if c.isDigit then .ok (some (c.toNat - '0'.toNat), k.next)
    else .ok (none, k)
  | none => .ok (none, k)

def restOfLine (k : Cursor) : Except Refusal Cursor :=
  let k := k.skipSpaces.skipComment
  if endsLine k.peek then .ok k.lineBreak.2 else .error .malformed

def header (k : Cursor) : Except Refusal (Header × Cursor) := do
  let (keepsEnd, k) := endMark k
  let (increment, k) ← incrementMark k
  let (keepsEnd, k) := if keepsEnd.isNone then endMark k else (keepsEnd, k)
  if !endsWord k.peek then throw .malformed
  return (⟨keepsEnd, increment⟩, ← restOfLine k)

/-- Reads blank lines before the first line of a block scalar: their ends, the largest column
reached, and the place after them. -/
def leadingBreaks : (fuel : Nat) → (widest : Nat) → Cursor → List Char × Nat × Cursor
  | 0, widest, k => ([], widest, k)
  | fuel + 1, widest, k =>
    let k := k.skipSpaces
    let widest := max widest k.column
    match k.lineBreak with
    | ([], _) => ([], widest, k)
    | (first, k) =>
      let (more, widest, k) := leadingBreaks fuel widest k
      (first ++ more, widest, k)

/-- Reads blank lines between the lines of a block scalar, up to its indentation. -/
def blockBreaks (indent : Nat) : (fuel : Nat) → Cursor → List Char × Cursor
  | 0, k => ([], k)
  | fuel + 1, k =>
    let k := k.skipSpacesTo indent
    match k.lineBreak with
    | ([], _) => ([], k)
    | (first, k) =>
      let (more, k) := blockBreaks indent fuel k
      (first ++ more, k)

def startsText (k : Cursor) : Bool := k.peek != some ' ' && k.peek != some '\t'

/-- Reads the lines of a block scalar, of which `breaks` are blank lines before the next one: the
text, the end of the last line, the blank lines after it and the place after them. -/
def blockLines (fold : Bool) (indent : Nat) : (fuel : Nat) → (breaks lineEnd : List Char) →
    Cursor → List Char × List Char × List Char × Cursor
  | 0, breaks, lineEnd, k => ([], lineEnd, breaks, k)
  | fuel + 1, breaks, lineEnd, k =>
    if k.column == indent && k.peek.isSome then
      let leading := startsText k
      let (line, after) := k.takeWhile (!isBreak ·)
      let (ended, after) := after.lineBreak
      let (more, after) := blockBreaks indent (after.rest.length + 1) after
      let joint :=
        if after.column == indent && after.peek.isSome then
          if fold && ended == ['\n'] && leading && startsText after then
            (if more.isEmpty then [' '] else [])
          else ended
        else []
      let (text, lineEnd, rest, last) := blockLines fold indent fuel more ended after
      (breaks ++ line ++ joint ++ text, lineEnd, rest, last)
    else ([], lineEnd, breaks, k)

/-- Reads a block scalar. `indent` is the column of the block around it. -/
def block (fold : Bool) (indent : Int) (k : Cursor) : Scanned := do
  let (header, k) ← header k.next
  let least := (max (indent + 1) 1).toNat
  let (breaks, column, k) := match header.increment with
    | none =>
      let (breaks, widest, k) := leadingBreaks (k.rest.length + 1) 0 k
      (breaks, max least widest, k)
    | some increment =>
      let column := least + increment - 1
      let (breaks, k) := blockBreaks column (k.rest.length + 1) k
      (breaks, column, k)
  let (text, lineEnd, rest, k) := blockLines fold column (k.rest.length + 1) breaks [] k
  return (text ++ (if header.keepsEnd == some false then [] else lineEnd) ++
    (if header.keepsEnd == some true then rest else []), k)

end Rehearsal.Yaml
