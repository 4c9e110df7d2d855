import Rehearsal.Context
import Rehearsal.Text.Blank
import Rehearsal.Text.Bytes
import Rehearsal.Text.Search

/-! A finished command has an exit code and console output, and it may have written outputs of its
step into a file as lines of a name, an equals sign and a value. -/

namespace Rehearsal

structure Report where
  exit : Int := 0
  output : String := ""
  error : String := ""
  /-- The bytes of the file for outputs; none if the command removed it. -/
  written : Option (List UInt8) := some []
  deriving Repr

namespace Report

def succeeded (r : Report) : Bool := r.exit == 0

end Report

namespace Outputs

open Rehearsal.Text

/-- The output that a line states: a trimmed name and a trimmed value around the first equals
sign. -/
def ofLine? (line : List Char) : Option (String × String) :=
  (cutAt? '=' (trim line)).map fun (name, value) =>
    (String.ofList (trim name), String.ofList (trim value))

def ofText (text : String) : Outputs :=
  Table.ofList ((splitOn '\n' text.toList).filterMap ofLine?)

def ofFile : Option (List UInt8) → Outputs
  | some bytes => ofText (Text.ofBytes bytes)
  | none => []

end Outputs

structure Window where
  text : String
  truncated : Bool := false
  omitted : Nat := 0
  deriving DecidableEq, Repr

namespace Window

open Rehearsal.Text

def marker (omitted : Nat) : String :=
  "... (" ++ toString omitted ++ " more lines omitted, use --full to see all) ..."

/-- Keeps the first and the last `count` lines of a text, and a text of at most twice as many lines
as a whole. -/
def of (text : String) (count : Int) : Window :=
  let lines := splitOn '\n' text.toList
  let n := count.toNat
  if count ≤ 0 ∨ lines.length ≤ 2 * n then ⟨text, false, 0⟩
  else
    let omitted := lines.length - 2 * n
    let head := String.ofList (join ['\n'] (lines.take n))
    let tail := String.ofList (join ['\n'] (lines.drop (lines.length - n)))
    ⟨head ++ "\n\n" ++ marker omitted ++ "\n\n" ++ tail, true, omitted⟩

end Window
end Rehearsal
