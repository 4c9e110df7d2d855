/-! Lower case as far as it leads to letters of ASCII. -/

namespace Rehearsal.Text

/-- The lower-case form of a character if an ASCII letter occurs in that form, and the character
itself otherwise. Besides the capitals of ASCII these are the Kelvin sign and the dotted capital I,
whose dot becomes a character of its own. -/
def lowerChar (c : Char) : List Char :=
  if 'A' ≤ c ∧ c ≤ 'Z' then [c.toLower]
  else if c = '\u212a' then ['k']
  else if c = '\u0130' then ['i', '\u0307']
  else [c]

def lower (s : List Char) : List Char := s.flatMap lowerChar

end Rehearsal.Text
