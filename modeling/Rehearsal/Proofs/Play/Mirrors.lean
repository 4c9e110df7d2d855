import Rehearsal.Proofs.Play.Aside
import Rehearsal.Proofs.Variable.Asked

/-! A dry run leaves out the executions, the pauses and some records of a real run, and says in
place of each command that it would be executed: `Mirrors`. Hence both ask the same questions
(`Mirrors.questions`), and the commands that the one previews are those that the other executes
(`Mirrors.ran`, `Mirrors.previewed`). -/

namespace Rehearsal

open Play

/-! ### Events -/

namespace Event

/-- The command and the directory of an execution with a file for outputs. -/
def ran? : Event → Option (String × String)
  | exec command directory environment _ =>
    if Table.has Command.outputVariable environment then some (command, directory) else none
  | _ => none

/-- The events that only a real run has: records, pauses, and executions without a file for
outputs. -/
def Live : Event → Prop
  | log _ _ | pause => True
  | exec _ _ environment _ => Table.has Command.outputVariable environment = false
  | _ => False

theorem ran?_eq_none_of_live {event : Event} (live : event.Live) : event.ran? = none := by
  cases event with
  | log | pause => rfl
  | exec command directory environment toolchain =>
    have unfiled : Table.has Command.outputVariable environment = false := live
    rw [ran?, unfiled]
    rfl
  | _ => exact live.elim

theorem ran?_eq_none_of_unexecuted {event : Event} (unexecuted : event.isExec = false) :
    event.ran? = none := by
  cases event with
  | exec => cases unexecuted
  | _ => rfl

theorem question?_eq_none_of_live {event : Event} (live : event.Live) : event.question? = none := by
  cases event <;> first | exact live.elim | rfl

def previewStart : String := "[PREVIEW] Would execute: "

/-- The text of a record that begins as the preview of a command does. -/
def preview? : Event → Option String
  | log _ message =>
    if Text.startsWith message previewStart then some message else none
  | _ => none

end Event

/-- What a dry run says in place of the execution of a command. -/
def previewText (command directory : String) : String :=
  Event.previewStart ++ command ++ " (in " ++ directory ++ ")"

/-- What else only a dry run says. -/
inductive Hints : String → Prop where
  | version (text : String) :
      Hints ("[PREVIEW] Would check local Terraform version against " ++ text)
  | step (text : String) : Hints ("[PREVIEW] Would run step: " ++ text)

namespace Session

/-- The commands that were executed for steps since a session, with their directories, the first
one first. -/
def commands (s t : Session) : List (String × String) :=
  ((t.since s).filterMap Event.ran?).reverse

/-- The records since a session that begin as previews of commands do, the first one first. -/
def previewed (s t : Session) : List String :=
  ((t.since s).filterMap Event.preview?).reverse

end Session

/-! ### Rows of events -/

/-- That the events of a dry run mirror those of a real one which began with the same events, and
that these commands were executed in these directories by the one and previewed by the other, the
latest first. Each preview stands in the place of an execution. -/
inductive Mirrors (logging : LogSettings) (start : List Event) :
    List Event → List Event → List (String × String) → Prop where
  | start : Mirrors logging start start start []
  | both {real dry : List Event} {pairs : List (String × String)}
      (mirrors : Mirrors logging start real dry pairs) {event : Event}
      (unexecuted : event.isExec = false) :
      Mirrors logging start (event :: real) (event :: dry) pairs
  | mock {real dry : List Event} {pairs : List (String × String)}
      (mirrors : Mirrors logging start real dry pairs) (name : String) (i : Invocation) :
      Mirrors logging start (.mock name { i with dryRun := false } :: real)
        (.mock name { i with dryRun := true } :: dry) pairs
  | live {real dry : List Event} {pairs : List (String × String)}
      (mirrors : Mirrors logging start real dry pairs) {event : Event} (live : event.Live) :
      Mirrors logging start (event :: real) dry pairs
  | hint {real dry : List Event} {pairs : List (String × String)}
      (mirrors : Mirrors logging start real dry pairs) {message : String} (hints : Hints message)
      {u : Session} (own : u.logging = logging) :
      Mirrors logging start real (logged .info message u ++ dry) pairs
  | command {real dry : List Event} {pairs : List (String × String)}
      (mirrors : Mirrors logging start real dry pairs) (command directory : String)
      {environment : Table String String} (toolchain : Option String)
      (file : Table.has Command.outputVariable environment = true) {u : Session}
      (own : u.logging = logging) :
      Mirrors logging start (.exec command directory environment toolchain :: real)
        (logged .info (previewText command directory) u ++ dry) ((command, directory) :: pairs)

namespace Mirrors

variable {logging : LogSettings} {start real dry : List Event} {pairs : List (String × String)}

theorem grows (mirrors : Mirrors logging start real dry pairs) : ∃ new, real = new ++ start := by
  induction mirrors with
  | start => exact ⟨[], rfl⟩
  | hint mirrors hints own ih => exact ih
  | both mirrors unexecuted ih | live mirrors live ih | mock mirrors name i ih
  | command mirrors command directory toolchain file own ih =>
    obtain ⟨new, rfl⟩ := ih
    exact ⟨_ :: new, rfl⟩

theorem append (mirrors : Mirrors logging start real dry pairs) {new : List Event}
    (unexecuted : ∀ event ∈ new, event.isExec = false) :
    Mirrors logging start (new ++ real) (new ++ dry) pairs := by
  induction new with
  | nil => exact mirrors
  | cons event new ih =>
    obtain ⟨own, others⟩ := List.forall_mem_cons.mp unexecuted
    exact .both (ih others) own

theorem work (mirrors : Mirrors logging start real dry pairs) {new : List Event}
    (live : ∀ event ∈ new, event.Live) : Mirrors logging start (new ++ real) dry pairs := by
  induction new with
  | nil => exact mirrors
  | cons event new ih =>
    obtain ⟨own, others⟩ := List.forall_mem_cons.mp live
    exact .live (ih others) own

theorem ran (mirrors : Mirrors logging start real dry pairs) :
    real.filterMap Event.ran? = pairs ++ start.filterMap Event.ran? := by
  induction mirrors with
  | start => rfl
  | hint mirrors hints own ih => exact ih
  | mock mirrors name i ih => exact ih
  | both mirrors unexecuted ih =>
    rwa [List.filterMap_cons_none (Event.ran?_eq_none_of_unexecuted unexecuted)]
  | live mirrors live ih => rwa [List.filterMap_cons_none (Event.ran?_eq_none_of_live live)]
  | command mirrors command directory toolchain file own ih =>
    rw [List.filterMap_cons_some (by rw [Event.ran?, if_pos file]), ih]
    rfl

theorem filterMap_question?_logged (level : Level) (message : String) (u : Session) :
    (logged level message u).filterMap Event.question? = [] := by
  unfold logged
  split <;> rfl

theorem questions (mirrors : Mirrors logging start real dry pairs) :
    dry.filterMap Event.question? = real.filterMap Event.question? := by
  induction mirrors with
  | start => rfl
  | mock mirrors name i ih => exact ih
  | both mirrors unexecuted ih => rw [List.filterMap_cons, List.filterMap_cons, ih]
  | live mirrors live ih => rwa [List.filterMap_cons_none (Event.question?_eq_none_of_live live)]
  | hint mirrors hints own ih =>
    rwa [List.filterMap_append, filterMap_question?_logged, List.nil_append]
  | command mirrors command directory toolchain file own ih =>
    rwa [List.filterMap_append, filterMap_question?_logged, List.nil_append,
      List.filterMap_cons_none rfl]

/-! ### Previews -/

theorem startsWith_previewText (command directory : String) :
    Text.startsWith (previewText command directory) Event.previewStart = true := by
  simp only [previewText, String.append_assoc, Text.startsWith, String.toList_append,
    Text.after?_append, Option.isSome_some]

theorem preview?_previewText (command directory : String) :
    (Event.log .info (previewText command directory)).preview? =
      some (previewText command directory) := if_pos (startsWith_previewText ..)

theorem preview?_of_hints {message : String} (hints : Hints message) :
    (Event.log .info message).preview? = none := by
  cases hints <;> simp [Event.preview?, Event.previewStart, Text.startsWith, Text.after?]

/-- A mark is put on what only the dry run says, so the texts that begin like previews are those of
the commands, unless the real run writes such a text too. -/
theorem previewed (kept : logging.threshold.weight ≤ Level.info.weight)
    (plain : logging.masked = false) (mirrors : Mirrors logging start real dry pairs)
    (unforged : ∀ new, real = new ++ start → ∀ event ∈ new, event.preview? = none) :
    dry.filterMap Event.preview? =
      pairs.map (fun pair => previewText pair.1 pair.2) ++ start.filterMap Event.preview? := by
  have shown {u : Session} (own : u.logging = logging) (message : String) :
      logged .info message u = [.log .info message] := by
    subst own
    exact logged_of_plain plain .info kept message
  -- What is said of the events of the real run holds of all but the last one.
  have before {event : Event} {real : List Event}
      (all : ∀ new, event :: real = new ++ start → ∀ event ∈ new, event.preview? = none) :
      ∀ new, real = new ++ start → ∀ event ∈ new, event.preview? = none :=
    fun new same other member =>
      all (event :: new) (by rw [same]; rfl) other (List.mem_cons_of_mem _ member)
  induction mirrors with
  | start => rfl
  | @both real dry pairs mirrors event unexecuted ih =>
    obtain ⟨new, same⟩ := mirrors.grows
    have own := unforged (event :: new) (by rw [same]; rfl) event List.mem_cons_self
    rw [List.filterMap_cons_none own, ih (before unforged)]
  | mock mirrors name i ih => exact ih (before unforged)
  | live mirrors live ih => exact ih (before unforged)
  | hint mirrors hints own ih =>
    rw [shown own, List.singleton_append, List.filterMap_cons_none (preview?_of_hints hints),
      ih unforged]
  | command mirrors command directory toolchain file own ih =>
    rw [shown own, List.singleton_append, List.filterMap_cons_some (preview?_previewText ..),
      ih (before unforged)]
    rfl

end Mirrors
end Rehearsal
