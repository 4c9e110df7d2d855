import Rehearsal.Session.Basic

/-! A run is decided by the answers that it gets and by the reports of its commands. A dialogue
plays the run with the answers and reports known so far, up to the first event that needs a new one.
-/

namespace Rehearsal.CommandLine

/-- The answers and reports known so far, in the order in which they came. -/
structure Transcript where
  confirms : List String := []
  texts : List String := []
  reports : List Report := []

inductive Need where
  | answer (question : Question)
  | report (command directory : String) (environment : Table String String)

namespace Transcript

def session (t : Transcript) : Session :=
  { answers := { confirms := t.confirms, texts := t.texts }, reports := t.reports }

def answer (text typed : String) (t : Transcript) : Transcript :=
  if Answers.isConfirmation text then { t with confirms := t.confirms ++ [typed] }
  else { t with texts := t.texts ++ [typed] }

def report (r : Report) (t : Transcript) : Transcript := { t with reports := t.reports ++ [r] }

end Transcript

/-- The events before the first one that needs more than is known, and what that one needs. The
numbers count the answers and reports that are left. -/
def settled : (confirms texts reports : Nat) → List Event → List Event × Option Need
  | _, _, _, [] => ([], none)
  | confirms, texts, reports, event :: rest =>
    let further (result : List Event × Option Need) : List Event × Option Need :=
      (event :: result.1, result.2)
    match event with
    | .ask question _ =>
      if Answers.isConfirmation question.text then
        match confirms with
        | 0 => ([], some (.answer question))
        | confirms + 1 => further (settled confirms texts reports rest)
      else
        match texts with
        | 0 => ([], some (.answer question))
        | texts + 1 => further (settled confirms texts reports rest)
    | .exec command directory environment _ =>
      match reports with
      | 0 => ([], some (.report command directory environment))
      | reports + 1 => further (settled confirms texts reports rest)
    | _ => further (settled confirms texts reports rest)

/-- The events of a trace that a transcript settles, and what it needs next. -/
def Transcript.settle (t : Transcript) (trace : List Event) : List Event × Option Need :=
  settled t.confirms.length t.texts.length t.reports.length trace.reverse

end Rehearsal.CommandLine
