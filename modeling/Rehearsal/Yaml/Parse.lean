import Rehearsal.Yaml.Unrolling

/-! The value of a text that holds one document. A text is checked in pieces for characters that may
not stand in it, while it is read. -/

namespace Rehearsal.Yaml

/-- The start of the last piece of a text that is read before a place. Text is read and checked in
pieces, of which the first one is twice as long. -/
def pieceStart (size place : Nat) : Nat := if place < 2 * size then 0 else place / size * size

def pieceSize : Nat := 4096

/-- The only document of a text, if there is one. In a text with a character that may not stand
there, only what is read before the piece with that character can be refused for another reason. -/
def document (text : List Char) : Except Refusal (Option Document) :=
  match text.findIdx? fun c => !isAllowed c with
  | none => Document.ofText text
  | some place => do
    let _ ← Document.ofText (text.take (pieceStart pieceSize place))
    throw .malformed

/-- The value of a text that holds one document; an empty text stands for null. -/
def parse (text : String) : Except Refusal Value := do
  match ← document text.toList with
  | some d => d.value
  | none => return .null

end Rehearsal.Yaml
