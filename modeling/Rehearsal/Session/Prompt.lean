import Rehearsal.Session.Basic
import Rehearsal.Text.Lower

/-! The four ways in which the user is asked: to confirm, to choose from a menu, for a text and for
a secret. -/

namespace Rehearsal

inductive Confirmation where
  | yes
  | no
  | all
  | quit
  | skip
  deriving DecidableEq, Repr

namespace Confirmation

def word : Confirmation → String
  | yes => "yes"
  | no => "no"
  | all => "all"
  | quit => "quit"
  | skip => "skip"

/-- The answer that a word or its first letter stands for, in either case; anything else is no. -/
def parse (answer : String) : Confirmation :=
  let typed := Text.lower (Text.trim answer.toList)
  let fits (c : Confirmation) : Bool := typed == c.word.toList || typed == c.word.toList.take 1
  ([yes, no, all, quit, skip].find? fits).getD no

end Confirmation

namespace Play

def confirm (question : String) : Play Confirmation := do
  return Confirmation.parse (← ask ⟨question ++ Answers.confirmationEnd, "n", false⟩)

/-- The option that an answer names by number or text, if there is one. -/
def chosen? (options : List String) (answer : String) : Except Fault (Option String) := do
  let digits := answer.toList
  if !digits.isEmpty && digits.all Text.isDigit then
    match Text.decimalValue? digits with
    | none => throw .numeral
    | some n =>
      if Numeral.maxDigits < digits.length then throw .numeral
      else if 1 ≤ n ∧ n ≤ options.length then return options[n - 1]?
  return if options.contains answer then some answer else none

def chooseWithin (options : List String) : (tries : Nat) → Play String
  | 0 => throw .noChoice
  | tries + 1 => do
    let answer ← ask ⟨"Select", "1", false⟩
    match ← adopt (chosen? options (Text.trimmed answer)) with
    | some option => return option
    | none =>
      echo ("Please choose 1-" ++ toString options.length)
      chooseWithin options tries

/-- Shows a numbered menu and asks until an option is chosen. After the given answers an empty one
chooses the first option. -/
def choose (text : String) (options : List String) : Play String := do
  echo text
  for (option, i) in options.zipIdx do
    echo ("  " ++ toString (i + 1) ++ ". " ++ option)
  chooseWithin options ((← get).answers.texts.length + 1)

def freeText (text default : String) : Play String := do
  return Text.trimmed (← ask ⟨text, default, false⟩)

def secret (text : String) : Play String := ask ⟨text, "", true⟩

end Play
end Rehearsal
