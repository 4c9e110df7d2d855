import Rehearsal.CommandLine.Switch

/-! A command takes one word and any number of switches, in any order. Switches act from left to
right. -/

namespace Rehearsal.CommandLine

structure Reading (σ : Type) where
  settings : σ
  word : Option String := none
  /-- Whether an argument was met that the command does not take. -/
  surplus : Bool := false

abbrev Change (σ : Type) := σ → Except Refusal σ

namespace Effect

variable {σ : Type}

def taking (f : String → σ → Option σ) (value : String) : Change σ := fun s =>
  match f value s with
  | some s => .ok s
  | none => .error .misused

end Effect

/-- What the argument of a switch stands for: changes, and the effect of the switch at its end if
that one takes the next argument as its value. -/
structure Expansion (σ : Type) where
  changes : List (Change σ)
  pending : Option (String → σ → Option σ) := none

namespace Switch

variable {σ : Type}

def plain : Effect σ → Expansion σ
  | .inform => ⟨[fun _ => .error .informed], none⟩
  | .change f => ⟨[fun s => .ok (f s)], none⟩
  | .take f => ⟨[], some f⟩

/-- What a switch and the text attached to it stand for. A switch that takes a value takes the
whole text. Behind the one letter of another switch each letter is a further switch, and text that
is left goes to the last of them. -/
def expand (switches : List (Switch σ)) :
    (effect : Effect σ) → (short : Bool) → List Char → Except Refusal (Expansion σ)
  | .take f, _, text => .ok ⟨[Effect.taking f (String.ofList text)], none⟩
  | _, _, [] => .error .misused
  | effect, short, c :: text =>
    match short, effect? switches ['-', c] with
    | true, some next => do
      let further ← if text.isEmpty then pure (plain next) else expand switches next true text
      return { further with changes := (plain effect).changes ++ further.changes }
    | _, _ => .error .misused

def expansion (switches : List (Switch σ)) (effect : Effect σ) (short : Bool) :
    Option (List Char) → Except Refusal (Expansion σ)
  | none => .ok (plain effect)
  | some text => expand switches effect short text

def apply (changes : List (Change σ)) (s : σ) : Except Refusal σ :=
  changes.foldlM (fun s change => change s) s

/-- Reads the arguments of a command. The separator is left out where a word may stand. -/
def read (switches : List (Switch σ)) :
    List (Argument σ) → Reading σ → Except Refusal (Reading σ)
  | [], r => .ok r
  | ⟨_, .switch effect short attached⟩ :: rest, r => do
    let e ← expansion switches effect short attached
    match e.pending, rest with
    | none, rest => read switches rest { r with settings := ← apply e.changes r.settings }
    | some f, ⟨value, .word⟩ :: rest =>
      let changes := e.changes ++ [Effect.taking f value]
      read switches rest { r with settings := ← apply changes r.settings }
    | some _, _ => throw .misused
  | ⟨_, .unknown⟩ :: rest, r => read switches rest { r with surplus := true }
  | ⟨_, .separator⟩ :: rest, r =>
    read switches rest
      (if r.word.isSome || rest.isEmpty then { r with surplus := true } else r)
  | ⟨word, .word⟩ :: ⟨text, .separator⟩ :: rest, r =>
    match r.word with
    | none => read switches rest { r with word := some word }
    | some _ => read switches (⟨text, .separator⟩ :: rest) { r with surplus := true }
  | ⟨word, .word⟩ :: rest, r =>
    match r.word with
    | none => read switches rest { r with word := some word }
    | some _ => read switches rest { r with surplus := true }

def readAll (switches : List (Switch σ)) (arguments : List String) (settings : σ) :
    Except Refusal (String × σ) := do
  let r ← read switches (← classify switches arguments) { settings }
  match r.word with
  | some word => if r.surplus then throw .misused else return (word, r.settings)
  | none => throw .misused

end Switch
end Rehearsal.CommandLine
