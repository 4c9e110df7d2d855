import Rehearsal.Action.Mock
import Rehearsal.Command.Report
import Rehearsal.Fault
import Rehearsal.Run.Ledger
import Rehearsal.Secrets

/-! A session is everything that a run reads and changes: its policy, what it has learned, the
answers the user is going to give, the reports the commands are going to leave, and the events so
far. A `Play` is a computation over a session. When it ends with a fault, the session is kept as it
was left. -/

namespace Rehearsal

inductive Level where
  | debug
  | info
  | warning
  | error
  deriving DecidableEq, Repr

namespace Level

def name : Level → String
  | debug => "DEBUG"
  | info => "INFO"
  | warning => "WARNING"
  | error => "ERROR"

def weight : Level → Nat
  | debug => 10
  | info => 20
  | warning => 30
  | error => 40

end Level

structure Question where
  text : String
  default : String
  hidden : Bool := false
  deriving DecidableEq, Repr

inductive Event where
  | log (level : Level) (message : String)
  | ask (question : Question) (answer : String)
  | echo (text : String)
  | exec (command directory : String) (environment : Table String String)
      (toolchain : Option String)
  | mock (name : String) (invocation : Invocation)
  | pause
  | reference (path : String)
  deriving Repr

/-- The answers that the user is going to give: to confirmations and to all other questions. -/
structure Answers where
  confirms : List String := []
  confirmRest : String := "y"
  /-- The answers to other questions; all further ones are empty. -/
  texts : List String := []
  deriving DecidableEq, Repr

namespace Answers

def confirmationEnd : String := " (y/n/a/q/s)"

def isConfirmation (text : String) : Bool := confirmationEnd.toList.isSuffixOf text.toList

def next (a : Answers) (text : String) : String × Answers :=
  if isConfirmation text then
    match a.confirms with
    | answer :: rest => (answer, { a with confirms := rest })
    | [] => (a.confirmRest, a)
  else
    match a.texts with
    | answer :: rest => (answer, { a with texts := rest })
    | [] => ("", a)

end Answers

/-- Which log records are kept, and whether secrets are masked in them. -/
structure LogSettings where
  threshold : Level := .info
  masked : Bool := false
  deriving DecidableEq, Repr

structure Session where
  policy : Policy := {}
  context : Context := {}
  secrets : Secrets := {}
  registry : Registry := {}
  answers : Answers := {}
  /-- What the next commands leave behind; all further ones succeed silently. -/
  reports : List Report := []
  /-- The version of the tool manager that is found when it is looked for. -/
  toolchain : Option String := none
  logging : LogSettings := {}
  ledger : Ledger := { workflowName := "Workflow" }
  trace : List Event := []
  deriving Inhabited

abbrev Play (α : Type) := ExceptT Fault (StateM Session) α

namespace Play

def perform {α : Type} (play : Play α) (s : Session) : Except Fault α × Session :=
  StateT.run (ExceptT.run play) s

def ofPerform {α : Type} (f : Session → Except Fault α × Session) : Play α :=
  ExceptT.mk fun s => pure (f s)

def adopt {α : Type} : Except Fault α → Play α
  | .ok a => pure a
  | .error fault => throw fault

def fit {α : Type} (result : Except Unfit α) : Play α := adopt (orUnfit result)

def record (event : Event) : Play Unit := modify fun s => { s with trace := event :: s.trace }

def log (level : Level) (message : String) : Play Unit := do
  let s ← get
  if s.logging.threshold.weight ≤ level.weight then
    record (.log level (if s.logging.masked then s.secrets.mask message else message))

def debug (message : String) : Play Unit := log .debug message

def info (message : String) : Play Unit := log .info message

def warning (message : String) : Play Unit := log .warning message

def error (message : String) : Play Unit := log .error message

def echo (text : String) : Play Unit := record (.echo text)

def ask (question : Question) : Play String := do
  let s ← get
  let (typed, answers) := s.answers.next question.text
  let answer := if typed = "" then question.default else typed
  set { s with answers, trace := .ask question answer :: s.trace }
  return answer

def modifyContext (f : Context → Context) : Play Unit :=
  modify fun s => { s with context := f s.context }

def modifyPolicy (f : Policy → Policy) : Play Unit :=
  modify fun s => { s with policy := f s.policy }

def modifyLedger (f : Ledger → Ledger) : Play Unit :=
  modify fun s => { s with ledger := f s.ledger }

def mask (text : String) : Play String := return (← get).secrets.mask text

/-- Executes a command. That one with a zero character cannot be handed over is left out. -/
def execute (command directory : String) (environment : Table String String) : Play Report := do
  let s ← get
  let (report, reports) := match s.reports with
    | report :: rest => (report, rest)
    | [] => ({}, [])
  let event := Event.exec command directory environment s.context.toolchain
  set { s with reports, trace := event :: s.trace }
  return report

end Play
end Rehearsal
