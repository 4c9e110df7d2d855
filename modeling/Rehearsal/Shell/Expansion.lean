import Rehearsal.Shell.Machine
import Rehearsal.Shell.Pattern
import Rehearsal.Shell.Tool.State

/-! What the parts of a word stand for is split at blanks and completed to the names of files,
unless it is quoted. -/

namespace Rehearsal.Shell

inductive Atom where
  | glyph (g : Glyph) (splits : Bool)
  | mark
  | cut
  deriving DecidableEq, Repr

namespace Atom

def ofText (quoted : Bool) (s : List Char) : List Atom :=
  s.map fun c => .glyph ⟨c, quoted⟩ (!quoted)

def glyphs (atoms : List Atom) : List Glyph :=
  atoms.filterMap fun
    | .glyph g _ => some g
    | _ => none

def text (atoms : List Atom) : List Char := (glyphs atoms).map (·.char)

/-- Splits atoms into words. Separators that are no blanks end a word each. -/
def fields (separators : List Char) : Option (List Glyph) → List Atom → List (List Glyph)
  | current, [] => current.toList
  | current, .cut :: rest => current.toList ++ fields separators none rest
  | current, .mark :: rest => fields separators (some (current.getD [])) rest
  | current, .glyph g splits :: rest =>
    if splits && separators.contains g.char then
      if g.char.isWhitespace then current.toList ++ fields separators none rest
      else current.getD [] :: fields separators none rest
    else fields separators (some (current.getD [] ++ [g])) rest

end Atom

namespace Expansion

/-- The names of files that a word is completed to; itself if there are none. -/
def complete (m : Machine) (field : List Glyph) : List String :=
  let itself := String.ofList (field.map (·.char))
  if !Pattern.isActive field then [itself]
  else
    let last := (field.reverse.takeWhile (·.char ≠ '/')).reverse
    let directory := field.take (field.length - last.length)
    let start := String.ofList (directory.map (·.char))
    if Pattern.isActive directory then [itself]
    else
      let hidden := (last.head?.map (·.char)) = some '.'
      let fits (name : String) : Bool :=
        (hidden || name.front ≠ '.') && Pattern.matches? last name.toList
      let place := if start.isEmpty then "." else start
      match (m.namesIn place).filter fits with
      | [] => [itself]
      | names => names.map (start ++ ·)

def tilde (m : Machine) : Word → Word
  | .char '~' false :: rest =>
    match rest with
    | [] | .char '/' _ :: _ => Word.literal ((m.valueOf? "HOME").getD "/").toList ++ rest
    | _ => .char '~' false :: rest
  | w => w

def alternatives (depth : Nat) (current : Word) : Word → List Word
  | [] => [current]
  | .char c false :: rest =>
    if c = ',' ∧ depth = 0 then current :: alternatives 0 [] rest
    else
      let depth := if c = '\x7b' then depth + 1 else if c = '\x7d' then depth - 1 else depth
      alternatives depth (current ++ [.char c false]) rest
  | part :: rest => alternatives depth (current ++ [part]) rest

def closing? (depth : Nat) : Word → Option (Word × Word)
  | [] => none
  | .char '\x7d' false :: rest =>
    if depth = 0 then some ([], rest)
    else (closing? (depth - 1) rest).map fun (inner, rest) => (.char '\x7d' false :: inner, rest)
  | part :: rest =>
    let depth := if part = .char '\x7b' false then depth + 1 else depth
    (closing? depth rest).map fun (inner, rest) => (part :: inner, rest)

def range? (inner : Word) : Option (List Word) := do
  let s ← Word.bare? inner
  let parts := ((String.ofList s).splitOn "..")
  match parts with
  | [a, b] =>
    let words (items : List String) : List Word :=
      items.map fun item => item.toList.map fun c => .char c false
    match a.toInt?, b.toInt? with
    | some first, some last =>
      let n := (last - first).natAbs + 1
      let step : Int := if first ≤ last then 1 else -1
      return words ((List.range n).map fun (i : Nat) => toString (first + step * i))
    | _, _ =>
      match a.toList, b.toList with
      | [x], [y] =>
        if x.isAlpha && y.isAlpha && x ≤ y then
          return words ((List.range (y.toNat + 1 - x.toNat)).map fun i =>
            String.singleton (Char.ofNat (x.toNat + i)))
        else none
      | _, _ => none
  | _ => none

def braces : (fuel : Nat) → Word → List Word
  | 0, w => [w]
  | fuel + 1, w =>
    let isOpen (part : Part) : Bool := part == .char '\x7b' false
    match w.dropWhile (!isOpen ·) with
    | [] => [w]
    | brace :: rest =>
      let before := w.takeWhile (!isOpen ·)
      match closing? 0 rest with
      | none => [w]
      | some (inner, rest) =>
        let items := match alternatives 0 [] inner with
          | [_] => range? inner
          | items => some items
        match items with
        | none => (braces fuel (inner ++ .char '\x7d' false :: rest)).map (before ++ brace :: ·)
        | some items =>
          items.flatMap fun item => (braces fuel (item ++ rest)).map (before ++ ·)

def replace (everywhere : Bool) (pattern : List Glyph) (replacement : List Char) :
    (fuel : Nat) → List Char → List Char
  | 0, s => s
  | _ + 1, [] => []
  | fuel + 1, c :: s =>
    let rest := Pattern.dropStart true pattern (c :: s)
    if pattern.isEmpty || rest.length = (c :: s).length then
      c :: replace everywhere pattern replacement fuel s
    else if everywhere then replacement ++ replace everywhere pattern replacement fuel rest
    else replacement ++ rest

def changeCase (f : Char → Char) (all : Bool) : List Char → List Char
  | [] => []
  | c :: s => f c :: if all then s.map f else s

def value? (m : Machine) (name : List Char) : Option String :=
  match name with
  | ['?'] => some (toString m.status)
  | ['$'] => some Tool.process
  | ['#'] => some (toString m.arguments.length)
  | ['@'] | ['*'] => if m.arguments.isEmpty then none else some (" ".intercalate m.arguments)
  | ['0'] => some "bash"
  | ['!'] => none
  | ['-'] => some "hBc"
  | name =>
    match (String.ofList name).toNat? with
    | some n => m.arguments[n - 1]?
    | none => m.valueOf? (String.ofList name)

def number (m : Machine) (name : List Char) : Int :=
  (((value? m name).getD "").toInt?).getD 0

end Expansion
end Rehearsal.Shell
