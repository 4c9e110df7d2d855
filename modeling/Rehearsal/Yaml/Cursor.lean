/-! A cursor is what is left of a document together with its place. Line ends are unified before a
document is read, so a line ends with a line feed or one of the line separators of Unicode. -/

namespace Rehearsal.Yaml

inductive Refusal where
  /-- The document is not well formed, or a value has a tag that it cannot have. -/
  | malformed
  | numeral
  | overflow
  | tooShort
  | noEntry
  | noMatch
  | wrongKind
  | tooDeep
  deriving DecidableEq, Repr

def isBreak (c : Char) : Bool := c == '\n' || c == '\x85' || c == '\u2028' || c == '\u2029'

def isAllowed (c : Char) : Bool :=
  let n := c.toNat
  n == 0x9 || n == 0xa || n == 0xd || (0x20 ≤ n && n ≤ 0x7e) || n == 0x85 ||
    (0xa0 ≤ n && n ≤ 0xd7ff) || (0xe000 ≤ n && n ≤ 0xfffd) || 0x10000 ≤ n

structure Cursor where
  rest : List Char
  index : Nat := 0
  line : Nat := 0
  column : Nat := 0
  deriving Repr

namespace Cursor

def peek (k : Cursor) : Option Char := k.rest.head?

def ahead (k : Cursor) (n : Nat) : Option Char := k.rest[n]?

def next (k : Cursor) : Cursor :=
  match k.rest with
  | [] => k
  | c :: rest =>
    if isBreak c then ⟨rest, k.index + 1, k.line + 1, 0⟩
    else ⟨rest, k.index + 1, k.line, if c == '\ufeff' then k.column else k.column + 1⟩

def skip (k : Cursor) : Nat → Cursor
  | 0 => k
  | n + 1 => k.next.skip n

def takeWhile (p : Char → Bool) (k : Cursor) : List Char × Cursor :=
  let taken := k.rest.takeWhile p
  (taken, k.skip taken.length)

def dropWhile (p : Char → Bool) (k : Cursor) : Cursor := (k.takeWhile p).2

def skipSpaces (k : Cursor) : Cursor := k.dropWhile (· == ' ')

def skipSpacesTo (column : Nat) (k : Cursor) : Cursor :=
  k.skip ((k.rest.take (column - k.column)).takeWhile (· == ' ')).length

/-- Takes off the end of a line; the text that it stands for is empty if there is none. -/
def lineBreak (k : Cursor) : List Char × Cursor :=
  match k.peek with
  | some c =>
    if c == '\n' || c == '\x85' then (['\n'], k.next)
    else if isBreak c then ([c], k.next)
    else ([], k)
  | none => ([], k)

def skipComment (k : Cursor) : Cursor :=
  if k.peek == some '#' then k.dropWhile (!isBreak ·) else k

end Cursor

def endsLine : Option Char → Bool
  | none => true
  | some c => isBreak c

def endsWord (c : Option Char) : Bool := c == some ' ' || endsLine c

def isGap (c : Option Char) : Bool := c == some '\t' || endsWord c

def Cursor.atSeparator (k : Cursor) : Bool :=
  (k.rest.take 3 == ['-', '-', '-'] || k.rest.take 3 == ['.', '.', '.']) && isGap (k.ahead 3)

end Rehearsal.Yaml
