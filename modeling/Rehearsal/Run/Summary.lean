import Rehearsal.Run.Ledger
import Rehearsal.Text.Blank
import Rehearsal.Text.Search
import Rehearsal.Value.Text

/-! A tree of jobs, steps and the first lines of their commands, and a tally of jobs and steps. -/

namespace Rehearsal

namespace Summary

/-- How a text is shown: plain, or with the colour codes of a terminal. -/
structure Style where
  colour : Bool

def escape (code : String) : String := "\x1b[" ++ code ++ "m"

def icon : Status → String
  | .success => "✓"
  | .failed => "✗"
  | .skipped => "⊝"

def colourCode : Status → String
  | .success => "32"
  | .failed => "31"
  | .skipped => "90"

def Style.tint (style : Style) (status : Status) (text : String) : String :=
  if style.colour then escape (colourCode status) ++ escape "22" ++ text ++ escape "0" else text

def Style.bold (style : Style) (text : String) : String :=
  if style.colour then escape "1" ++ text ++ escape "0" else text

def maxCommandLines : Nat := 3

/-- The lines of a command that are not blank, without the blanks around them. -/
def commandLines (command : String) : List String :=
  (((Text.splitOn '\n' command.toList).map Text.trim).filter (· ≠ [])).map String.ofList

def omissionLine (omitted : Nat) : String :=
  "... (" ++ toString omitted ++ " more line" ++ (if omitted > 1 then "s" else "") ++ ")"

def branch (last : Bool) : String := if last then "└─" else "├─"

def stem (last : Bool) : String := if last then "  " else "│ "

def commandPart (style : Style) (start : String) (lines : List String) : List String :=
  match lines.take maxCommandLines with
  | [] => []
  | first :: others =>
    let omitted := lines.length - maxCommandLines
    (start ++ "└─ " ++ style.tint .skipped first) ::
      others.map (fun line => start ++ "   " ++ style.tint .skipped line) ++
      (if omitted > 0 then [start ++ "   " ++ style.tint .skipped (omissionLine omitted)] else [])

def stepPart (style : Style) (start : String) (last : Bool) (step : StepResult) : List String :=
  (start ++ branch last ++ " " ++ style.tint step.status (icon step.status) ++ " " ++
      style.tint step.status step.name) ::
    commandPart style (start ++ stem last) (commandLines (step.command.getD ""))

def stepParts (style : Style) (start : String) : List StepResult → List String
  | [] => []
  | step :: rest => stepPart style start rest.isEmpty step ++ stepParts style start rest

def title (j : JobResult) : String := j.name.plain.toOption.getD ""

def jobPart (style : Style) (last : Bool) (j : JobResult) : List String :=
  (branch last ++ " " ++ style.tint j.status (icon j.status) ++ " " ++
      style.tint j.status (title j)) ::
    stepParts style (stem last) j.steps

def jobParts (style : Style) : List JobResult → List String
  | [] => []
  | [j] => jobPart style true j
  | j :: rest => jobPart style false j ++ "│" :: jobParts style rest

/-- How many results passed, failed and were skipped, and how many there are. -/
def tally (style : Style) (statuses : List Status) : String :=
  let part (status : Status) (word : String) : String :=
    style.tint status (toString (statuses.count status) ++ " " ++ word)
  let parts := [part .success "passed"] ++
    (if statuses.contains .failed then [part .failed "failed"] else []) ++
    (if statuses.contains .skipped then [part .skipped "skipped"] else [])
  ", ".intercalate parts ++ " (" ++ toString statuses.length ++ " total)"

end Summary

def Ledger.summary (colour : Bool) (l : Ledger) : List String :=
  let style : Summary.Style := ⟨colour⟩
  [String.ofList (List.replicate 60 '═'), style.bold "Summary", "", style.bold l.workflowName] ++
    Summary.jobParts style l.jobs ++
    ["", "Jobs:  " ++ Summary.tally style (l.jobs.map (·.status)),
      "Steps: " ++ Summary.tally style (l.steps.map (·.status))]

end Rehearsal
