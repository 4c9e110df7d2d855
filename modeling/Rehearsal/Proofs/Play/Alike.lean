import Rehearsal.Proofs.Play.Deed

/-! A play is `Alike` for a relation between sessions if in related sessions it comes to the same
result and leaves related sessions. That is kept by the ways in which plays are put together. All
plays that find values are alike for a relation that `Likens` sessions, and those that keep none for
one by which sessions have the same answers and outputs (`Agrees`). -/

namespace Rehearsal

open Play

structure Alike (R : Session → Session → Prop) {α : Type} (play : Play α) : Prop where
  outcome : ∀ {s t}, R s t →
    (play.perform t).1 = (play.perform s).1 ∧ R (play.perform s).2 (play.perform t).2

/-- The deeds by which values are found, but for those that keep one. -/
def Deed.Seeks : Deed → Prop
  | log _ _ | echo _ | ask _ | register _ => True
  | _ => False

/-- That related sessions have the same answers and outputs, and stay related while values are found
and not kept. Of the outputs of steps those of one job matter, if there is one. -/
structure Agrees (job : Option Scalar) (R : Session → Session → Prop) : Prop where
  jobs : ∀ {s t}, R s t → t.context.jobs = s.context.jobs
  answers : ∀ {s t}, R s t → t.answers = s.answers
  steps : ∀ {s t}, R s t → ∀ owner, job = some owner → ∀ step name,
    t.context.stepOutput? owner step name = s.context.stepOutput? owner step name
  deed : ∀ {s t d}, Deed.Seeks d → R s t → R (d.after s) (d.after t)

/-- That related sessions have the same in all that values are found with, and stay related while
they are found. -/
structure Likens (job : Option Scalar) (R : Session → Session → Prop) : Prop
    extends Agrees job R where
  resolved : ∀ {s t}, R s t → t.context.resolved = s.context.resolved
  secrets : ∀ {s t}, R s t → t.secrets = s.secrets
  remember : ∀ {s t} expression value, R s t →
    R ((Deed.remember expression value).after s) ((Deed.remember expression value).after t)

theorem Agrees.jobOutput? {job : Option Scalar} {R : Session → Session → Prop} {s t : Session}
    (agrees : Agrees job R) (related : R s t) (owner : Scalar) (name : String) :
    t.context.jobOutput? owner name = s.context.jobOutput? owner name :=
  Context.jobOutput?_congr (agrees.jobs related) owner name

namespace Alike

variable {α β : Type} {job : Option Scalar} {R : Session → Session → Prop}

theorem pure (a : α) : Alike R (Pure.pure a : Play α) := ⟨fun related => ⟨rfl, related⟩⟩

theorem throw (fault : Fault) : Alike R (MonadExcept.throw fault : Play α) :=
  ⟨fun related => ⟨rfl, related⟩⟩

theorem adopt (result : Except Fault α) : Alike R (Play.adopt result) := by
  cases result with
  | ok a => exact pure a
  | error fault => exact throw fault

theorem fit (result : Except Unfit α) : Alike R (Play.fit result) := adopt _

theorem of_deed {play : Play α} (d : Deed) (after : ∀ s, (play.perform s).2 = d.after s)
    (same : ∀ {s t}, R s t → (play.perform t).1 = (play.perform s).1)
    (keeps : ∀ {s t}, R s t → R (d.after s) (d.after t)) : Alike R play := by
  refine ⟨fun {s t} related => ⟨same related, ?_⟩⟩
  rw [after, after]
  exact keeps related

theorem log (agrees : Agrees job R) (level : Level) (message : String) :
    Alike R (Play.log level message) := by
  refine of_deed (.log level message) (fun _ => rfl) (fun _ => ?_) (agrees.deed trivial)
  rw [perform_log, perform_log]

theorem info (agrees : Agrees job R) (message : String) : Alike R (Play.info message) :=
  log agrees ..

theorem echo (agrees : Agrees job R) (text : String) : Alike R (Play.echo text) :=
  of_deed (.echo text) (fun _ => rfl) (fun _ => rfl) (agrees.deed trivial)

theorem ask (agrees : Agrees job R) (question : Question) : Alike R (Play.ask question) := by
  refine of_deed (.ask question) (fun s => (perform_discard _ s).symm) (fun {s t} related => ?_)
    (agrees.deed trivial)
  rw [perform_ask, perform_ask, answer, answer, agrees.answers related]

theorem mask (likens : Likens job R) (text : String) : Alike R (Play.mask text) := by
  refine ⟨fun {s t} related => ?_⟩
  rw [perform_mask, perform_mask, likens.secrets related]
  exact ⟨rfl, related⟩

theorem outcome_bind {play : Play α} {next : α → Play β} {s t : Session}
    (first : (play.perform t).1 = (play.perform s).1 ∧ R (play.perform s).2 (play.perform t).2)
    (rest : ∀ a, Alike R (next a)) :
    ((play >>= next).perform t).1 = ((play >>= next).perform s).1 ∧
      R ((play >>= next).perform s).2 ((play >>= next).perform t).2 := by
  obtain ⟨same, after⟩ := first
  rw [perform_bind, perform_bind]
  cases real : play.perform s with
  | mk result u =>
    cases other : play.perform t with
    | mk own v =>
      rw [real, other] at same after
      obtain rfl : own = result := same
      cases own with
      | error fault => exact ⟨rfl, after⟩
      | ok a => exact (rest a).outcome after

theorem bind {play : Play α} {next : α → Play β} (first : Alike R play)
    (rest : ∀ a, Alike R (next a)) : Alike R (play >>= next) :=
  ⟨fun related => outcome_bind (first.outcome related) rest⟩

theorem get_bind {next : Session → Play β} (same : ∀ {s t}, R s t → next t = next s)
    (rest : ∀ s, Alike R (next s)) : Alike R (MonadState.get >>= next) := by
  constructor
  intro s t related
  rw [perform_get_bind, perform_get_bind, same related]
  exact (rest s).outcome related

theorem map {play : Play α} (f : α → β) (alike : Alike R play) : Alike R (f <$> play) := by
  rw [map_eq_pure_bind]
  exact bind alike fun a => pure (f a)

theorem tryCatch {play : Play α} {handle : Fault → Play α} (first : Alike R play)
    (rest : ∀ fault, Alike R (handle fault)) : Alike R (MonadExcept.tryCatch play handle) := by
  constructor
  intro s t related
  obtain ⟨same, after⟩ := first.outcome related
  rw [perform_tryCatch, perform_tryCatch]
  cases real : play.perform s with
  | mk result u =>
    cases other : play.perform t with
    | mk own v =>
      rw [real, other] at same after
      obtain rfl : own = result := same
      cases own with
      | ok a => exact ⟨rfl, after⟩
      | error fault => exact (rest fault).outcome after

theorem forIn {τ : Type} {items : List α} {init : τ} {f : α → τ → Play (ForInStep τ)}
    (each : ∀ a b, Alike R (f a b)) : Alike R (ForIn.forIn items init f) := by
  induction items generalizing init with
  | nil => exact pure init
  | cons a rest ih =>
    rw [List.forIn_cons]
    refine bind (each a init) fun step => ?_
    cases step with
    | done b => exact pure b
    | yield b => exact ih

theorem mapM {items : List α} {f : α → Play β} (each : ∀ a ∈ items, Alike R (f a)) :
    Alike R (items.mapM f) := by
  induction items with
  | nil => exact pure []
  | cons a rest ih =>
    obtain ⟨own, others⟩ := List.forall_mem_cons.mp each
    rw [List.mapM_cons]
    exact bind own fun _ => bind (ih others) fun _ => pure _

end Alike
end Rehearsal
