import Rehearsal.Text.Blank
import Rehearsal.Text.Piece
import Rehearsal.Text.Search

/-! A placeholder is an expression between a dollar sign with two opening braces and two closing
braces. Its inside reaches to the first closing brace, so an unclosed placeholder takes in the text
up to the next one that is closed. -/

namespace Rehearsal.Expression.Placeholder

open Rehearsal.Text

def opening : List Char := ['$', '\x7b', '\x7b']

def closing : List Char := ['\x7d', '\x7d']

/-- The inside of the placeholder that a text starts with: a nonempty text without closing brace
that two closing braces follow. -/
def inside? (s : List Char) : Option (List Char) := do
  let rest ← after? opening s
  let body := rest.takeWhile (· ≠ '\x7d')
  let _ ← after? closing (rest.dropWhile (· ≠ '\x7d'))
  if body.isEmpty then none else some body

def length? (s : List Char) : Option Nat := (inside? s).map fun body => body.length + 5

def expression (placeholder : List Char) : List Char :=
  trim (placeholder.drop 3).dropLast.dropLast

def of (expression : String) : List Char :=
  opening ++ ' ' :: expression.toList ++ ' ' :: closing

def ofPiece? : Piece → Option String
  | .plain _ => none
  | .found s => some (String.ofList (expression s))

/-- The expressions of all placeholders in a text, from left to right. -/
def extract (text : String) : List String := (cut length? text.toList).filterMap ofPiece?

def unwrap (s : List Char) : List Char := replaceFound expression (cut length? s)

end Rehearsal.Expression.Placeholder
