/-! `cut` goes through a text from left to right and takes out the parts that a recognizer finds.
The pieces put together are the text again. -/

namespace Rehearsal.Text

/-- A part of a text: one that was found, or a character between those. -/
inductive Piece where
  | plain (c : Char)
  | found (s : List Char)
  deriving DecidableEq, Repr

namespace Piece

def chars : Piece → List Char
  | plain c => [c]
  | found s => s

end Piece

/-- Cuts a text into pieces. `length?` tells how long a part at the start of a text is; `skip`
characters belong to the part found last. -/
def cutFrom (length? : List Char → Option Nat) : (skip : Nat) → List Char → List Piece
  | _, [] => []
  | skip + 1, _ :: s => cutFrom length? skip s
  | 0, c :: s =>
    match length? (c :: s) with
    | some n => .found ((c :: s).take n) :: cutFrom length? (n - 1) s
    | none => .plain c :: cutFrom length? 0 s

/-- Cuts a text into the parts that `length?` finds and the characters between them. -/
def cut (length? : List Char → Option Nat) (s : List Char) : List Piece := cutFrom length? 0 s

theorem flatMap_chars_cutFrom {length? : List Char → Option Nat}
    (pos : ∀ s n, length? s = some n → 0 < n) (skip : Nat) (s : List Char) :
    (cutFrom length? skip s).flatMap Piece.chars = s.drop skip := by
  induction s generalizing skip with
  | nil => simp [cutFrom]
  | cons c s ih =>
    cases skip with
    | succ skip => simpa [cutFrom] using ih skip
    | zero =>
      simp only [cutFrom]
      split
      · next n found =>
        obtain ⟨m, rfl⟩ := Nat.exists_eq_succ_of_ne_zero (Nat.ne_of_gt (pos _ _ found))
        simp [Piece.chars, ih]
      · simp [Piece.chars, ih]

theorem flatMap_chars_cut {length? : List Char → Option Nat}
    (pos : ∀ s n, length? s = some n → 0 < n) (s : List Char) :
    (cut length? s).flatMap Piece.chars = s := by
  simpa [cut] using flatMap_chars_cutFrom pos 0 s

def replaceFound (f : List Char → List Char) (pieces : List Piece) : List Char :=
  pieces.flatMap fun
    | .plain c => [c]
    | .found s => f s

end Rehearsal.Text
