/-! Bytes are read as UTF-8. A sequence that is broken off becomes one replacement character for as
many bytes as still could have started a character. All line ends become line feeds. -/

namespace Rehearsal.Text

/-- What a byte that starts a sequence says: how many bytes follow, its own bits, and the range of
the byte after it. -/
structure Lead where
  following : Nat
  bits : Nat
  low : Nat
  high : Nat

def lead? (b : Nat) : Option Lead :=
  if 0xc2 ≤ b ∧ b ≤ 0xdf then some ⟨1, b - 0xc0, 0x80, 0xbf⟩
  else if b = 0xe0 then some ⟨2, 0, 0xa0, 0xbf⟩
  else if b = 0xed then some ⟨2, 0xd, 0x80, 0x9f⟩
  else if 0xe1 ≤ b ∧ b ≤ 0xef then some ⟨2, b - 0xe0, 0x80, 0xbf⟩
  else if b = 0xf0 then some ⟨3, 0, 0x90, 0xbf⟩
  else if 0xf1 ≤ b ∧ b ≤ 0xf3 then some ⟨3, b - 0xf0, 0x80, 0xbf⟩
  else if b = 0xf4 then some ⟨3, 4, 0x80, 0x8f⟩
  else none

/-- What reading has reached: nothing, or the inside of a sequence with the number of bytes to
come, the bits so far and the range of the next byte. -/
inductive Progress where
  | start
  | inside (following bits low high : Nat)

def startByte (b : Nat) : List Char × Progress :=
  if b < 0x80 then ([Char.ofNat b], .start)
  else match lead? b with
    | some l => ([], .inside l.following l.bits l.low l.high)
    | none => (['\ufffd'], .start)

/-- Reads one byte: the characters that it completes, and what is reached then. -/
def readByte : Progress → Nat → List Char × Progress
  | .start, b => startByte b
  | .inside following bits low high, b =>
    if low ≤ b ∧ b ≤ high then
      let bits := bits * 64 + b % 64
      if following ≤ 1 then ([Char.ofNat bits], .start)
      else ([], .inside (following - 1) bits 0x80 0xbf)
    else
      let (cs, progress) := startByte b
      ('\ufffd' :: cs, progress)

def decodeFrom : Progress → List UInt8 → List Char
  | .start, [] => []
  | .inside .., [] => ['\ufffd']
  | progress, b :: bytes =>
    let (cs, progress) := readByte progress b.toNat
    cs ++ decodeFrom progress bytes

def decode (bytes : List UInt8) : List Char := decodeFrom .start bytes

def unifyLineEnds : List Char → List Char
  | [] => []
  | '\r' :: '\n' :: s => '\n' :: unifyLineEnds s
  | '\r' :: s => '\n' :: unifyLineEnds s
  | c :: s => c :: unifyLineEnds s

def ofBytes (bytes : List UInt8) : String := String.ofList (unifyLineEnds (decode bytes))

end Rehearsal.Text
