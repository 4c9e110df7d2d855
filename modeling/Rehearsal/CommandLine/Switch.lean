import Rehearsal.Text.Digit
import Rehearsal.Text.Search

/-! Switches are the arguments of a command line that start with a hyphen. `Switch.classify` says
what each argument is before any of them takes effect. -/

namespace Rehearsal.CommandLine

open Rehearsal.Text

inductive Refusal where
  | informed
  | misused
  deriving DecidableEq, Repr

namespace Refusal

def exitCode : Refusal → Nat
  | informed => 0
  | misused => 2

end Refusal

inductive Effect (σ : Type) where
  /-- Asks for a text about the program in place of its work. -/
  | inform
  | change (f : σ → σ)
  | take (f : String → σ → Option σ)

/-- A switch: its names, with their hyphens, and its effect. -/
structure Switch (σ : Type) where
  names : List String
  effect : Effect σ

inductive Meaning (σ : Type) where
  | word
  | separator
  | unknown
  /-- A switch, under a name of one letter or not, and the text attached to it. -/
  | switch (effect : Effect σ) (short : Bool) (attached : Option (List Char))

structure Argument (σ : Type) where
  text : String
  meaning : Meaning σ

namespace Switch

variable {σ : Type}

def separator : String := "--"

def index (switches : List (Switch σ)) : List (List Char × Effect σ) :=
  switches.flatMap fun s => s.names.map fun name => (name.toList, s.effect)

def effect? (switches : List (Switch σ)) (name : List Char) : Option (Effect σ) :=
  ((index switches).find? fun entry => entry.1 == name).map (·.2)

def isLong (name : List Char) : Bool := (after? ['-', '-'] name).isSome

def cut (argument : List Char) : List Char × Option (List Char) :=
  match cutAt? '=' argument with
  | some (name, value) => (name, some value)
  | none => (argument, none)

/-- Whether a text is a negative decimal number; a line feed may follow it. -/
def isNegativeNumber : List Char → Bool
  | '-' :: s =>
    let s := if s.getLast? = some '\n' then s.dropLast else s
    let fraction := (s.dropWhile isDecimalDigit).drop 1
    (!s.isEmpty && s.all isDecimalDigit) ||
      ((s.dropWhile isDecimalDigit).head? = some '.' && !fraction.isEmpty &&
        fraction.all isDecimalDigit)
  | _ => false

/-- What an argument is that starts with a hyphen and is no full name. A long name may be cut short
as long as it is the start of one name only; a value may stand right behind a short name. -/
def inexact (switches : List (Switch σ)) (argument : List Char) : Except Refusal (Meaning σ) :=
  if isLong argument then
    let (start, attached) := cut argument
    match (index switches).filter fun entry => (after? start entry.1).isSome with
    | [(_, effect)] => .ok (.switch effect false attached)
    | [] => .ok (if argument.contains ' ' then .word else .unknown)
    | _ => .error .misused
  else
    match effect? switches (argument.take 2) with
    | some effect => .ok (.switch effect true (some (argument.drop 2)))
    | none =>
      .ok (if isNegativeNumber argument || argument.contains ' ' then .word else .unknown)

def meaning (switches : List (Switch σ)) (argument : List Char) : Except Refusal (Meaning σ) :=
  if argument.head? ≠ some '-' then .ok .word
  else match effect? switches argument with
    | some effect => .ok (.switch effect (!isLong argument) none)
    | none =>
      if argument.length = 1 then .ok .word
      else
        let (name, attached) := cut argument
        match attached, effect? switches name with
        | some value, some effect => .ok (.switch effect (!isLong name) (some value))
        | _, _ => inexact switches argument

def classify (switches : List (Switch σ)) : List String → Except Refusal (List (Argument σ))
  | [] => .ok []
  | text :: rest =>
    if text = separator then
      .ok (⟨text, .separator⟩ :: rest.map fun text => ⟨text, .word⟩)
    else do
      let m ← meaning switches text.toList
      return ⟨text, m⟩ :: (← classify switches rest)

end Switch
end Rehearsal.CommandLine
