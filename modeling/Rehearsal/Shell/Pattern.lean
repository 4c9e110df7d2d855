/-! A pattern describes texts: a star stands for any text, a question mark for one character,
brackets for one of the characters inside. Quoted characters stand for themselves. -/

namespace Rehearsal.Shell

structure Glyph where
  char : Char
  quoted : Bool
  deriving DecidableEq, Repr

namespace Pattern

def inBrackets (c : Char) : List Char → Bool
  | a :: '-' :: b :: rest => (a ≤ c && c ≤ b) || inBrackets c rest
  | a :: rest => a == c || inBrackets c rest
  | [] => false

def closing? : List Glyph → Option (List Char × List Glyph)
  | [] => none
  | g :: rest =>
    if g.char = ']' && !g.quoted then some ([], rest)
    else (closing? rest).map fun (inner, rest) => (g.char :: inner, rest)

def fits : (fuel : Nat) → List Glyph → List Char → Bool
  | 0, _, _ => false
  | _ + 1, [], s => s.isEmpty
  | fuel + 1, g :: pattern, s =>
    if !g.quoted && g.char == '*' then
      fits fuel pattern s || (match s with
        | [] => false
        | _ :: rest => fits fuel (g :: pattern) rest)
    else if !g.quoted && g.char == '?' then
      match s with
      | [] => false
      | _ :: rest => fits fuel pattern rest
    else
      let brackets := if !g.quoted && g.char == '[' then closing? pattern else none
      match brackets, s with
      | _, [] => false
      | none, c :: rest => c == g.char && fits fuel pattern rest
      | some (inner, pattern), c :: rest =>
        let fit := match inner with
          | '!' :: inner => !inBrackets c inner
          | '^' :: inner => !inBrackets c inner
          | inner => inBrackets c inner
        fit && fits fuel pattern rest

def matches? (pattern : List Glyph) (s : List Char) : Bool :=
  fits (pattern.length + s.length + 1) pattern s

def isActive (pattern : List Glyph) : Bool :=
  pattern.any fun g => !g.quoted && (g.char == '*' || g.char == '?' || g.char == '[')

/-- What is left of a text when a start that fits is taken away; a long one or a short one. -/
def dropStart (long : Bool) (pattern : List Glyph) (s : List Char) : List Char :=
  let lengths := List.range (s.length + 1)
  match (if long then lengths.reverse else lengths).find? fun n => matches? pattern (s.take n) with
  | some n => s.drop n
  | none => s

/-- What is left of a text when an end that fits is taken away; a long one or a short one. -/
def dropEnd (long : Bool) (pattern : List Glyph) (s : List Char) : List Char :=
  let lengths := List.range (s.length + 1)
  match (if long then lengths else lengths.reverse).find? fun n => matches? pattern (s.drop n) with
  | some n => s.take n
  | none => s

end Pattern
end Rehearsal.Shell
