/-! A character beyond U+FFFF can be written as a pair of halves, which are numbers between U+D800
and U+DFFF. Text that is read from escapes may hold a half without its partner. Such a half is kept
as a character of the last plane for private use, and is written by the number of the half. -/

namespace Rehearsal.Text

def isLead (n : Nat) : Bool := 0xd800 ≤ n && n < 0xdc00

def isTrail (n : Nat) : Bool := 0xdc00 ≤ n && n < 0xe000

/-- The distance from the halves to the characters that stand for them. -/
def halfShift : Nat := 0x10f000 - 0xd800

/-- The character with a number; a half has a character that stands for it. -/
def ofCode (n : Nat) : Char := Char.ofNat (if isLead n || isTrail n then n + halfShift else n)

def code (c : Char) : Nat :=
  let n := c.toNat
  if isLead (n - halfShift) || isTrail (n - halfShift) then n - halfShift else n

def codes (s : String) : List Nat := s.toList.map code

def ofPair (lead trail : Nat) : Char :=
  Char.ofNat (0x10000 + (lead - 0xd800) * 0x400 + (trail - 0xdc00))

end Rehearsal.Text
