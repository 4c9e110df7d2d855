import Rehearsal.Action.Lookup

/-! What performing a play does to a session, for each way in which plays are put together and for
each of the small plays. -/

namespace Rehearsal.Play

variable {α β : Type}

@[simp]
theorem perform_pure (a : α) (s : Session) : (pure a : Play α).perform s = (.ok a, s) := rfl

@[simp]
theorem perform_throw (fault : Fault) (s : Session) :
    (throw fault : Play α).perform s = (.error fault, s) := rfl

@[simp]
theorem perform_get (s : Session) : (get : Play Session).perform s = (.ok s, s) := rfl

@[simp]
theorem perform_set (s t : Session) : (set t : Play PUnit).perform s = (.ok ⟨⟩, t) := rfl

@[simp]
theorem perform_modify (f : Session → Session) (s : Session) :
    (modify f : Play PUnit).perform s = (.ok ⟨⟩, f s) := rfl

@[simp]
theorem perform_ofPerform (f : Session → Except Fault α × Session) (s : Session) :
    (ofPerform f).perform s = f s := rfl

theorem perform_bind (play : Play α) (next : α → Play β) (s : Session) :
    (play >>= next).perform s = match play.perform s with
      | (.ok a, t) => (next a).perform t
      | (.error fault, t) => (.error fault, t) := by
  unfold perform ExceptT.run StateT.run
  simp only [bind, ExceptT.bind, ExceptT.mk, StateT.bind, ExceptT.bindCont]
  cases play s with
  | mk result t => cases result <;> rfl

theorem perform_map (f : α → β) (play : Play α) (s : Session) :
    (f <$> play).perform s = match play.perform s with
      | (.ok a, t) => (.ok (f a), t)
      | (.error fault, t) => (.error fault, t) := by
  unfold perform ExceptT.run StateT.run
  simp only [Functor.map, ExceptT.map, ExceptT.mk, bind, StateT.bind]
  cases play s with
  | mk result t => cases result <;> rfl

theorem perform_tryCatch (play : Play α) (handle : Fault → Play α) (s : Session) :
    (tryCatch play handle).perform s = match play.perform s with
      | (.ok a, t) => (.ok a, t)
      | (.error fault, t) => (handle fault).perform t := by
  unfold perform ExceptT.run StateT.run
  simp only [tryCatch, tryCatchThe, MonadExceptOf.tryCatch, ExceptT.tryCatch, ExceptT.mk, bind,
    StateT.bind]
  cases play s with
  | mk result t => cases result <;> rfl

theorem perform_discard (play : Play α) (s : Session) :
    ((discard play).perform s).2 = (play.perform s).2 := by
  show (((fun _ => PUnit.unit) <$> play).perform s).2 = _
  rw [perform_map]
  cases play.perform s with
  | mk result t => cases result <;> rfl

theorem perform_bind_ok {play : Play α} {next : α → Play β} {s t : Session} {a : α}
    (h : play.perform s = (.ok a, t)) : (play >>= next).perform s = (next a).perform t := by
  rw [perform_bind, h]

theorem perform_bind_error {play : Play α} {next : α → Play β} {s t : Session} {fault : Fault}
    (h : play.perform s = (.error fault, t)) : (play >>= next).perform s = (.error fault, t) := by
  rw [perform_bind, h]

theorem perform_bind_eq_ok {play : Play α} {next : α → Play β} {s u : Session} {b : β}
    (h : (play >>= next).perform s = (.ok b, u)) :
    ∃ a t, play.perform s = (.ok a, t) ∧ (next a).perform t = (.ok b, u) := by
  rw [perform_bind] at h
  cases performed : play.perform s with
  | mk result t =>
    rw [performed] at h
    cases result with
    | error fault => cases h
    | ok a => exact ⟨a, t, rfl, h⟩

theorem perform_bind_cases {play : Play α} {next : α → Play β} {s u : Session}
    {result : Except Fault β} (h : (play >>= next).perform s = (result, u)) :
    (∃ fault, play.perform s = (.error fault, u) ∧ result = .error fault) ∨
      ∃ a t, play.perform s = (.ok a, t) ∧ (next a).perform t = (result, u) := by
  rw [perform_bind] at h
  cases performed : play.perform s with
  | mk first t =>
    rw [performed] at h
    cases first with
    | error fault =>
      cases h
      exact .inl ⟨fault, rfl, rfl⟩
    | ok a => exact .inr ⟨a, t, rfl, h⟩

theorem perform_eq_of_toOption {play : Play α} {s : Session} {a : α}
    (seen : (play.perform s).1.toOption = some a) :
    play.perform s = (.ok a, (play.perform s).2) := by
  cases performed : play.perform s with
  | mk result t =>
    rw [performed] at seen
    cases result with
    | error fault => cases seen
    | ok b =>
      cases seen
      rfl

@[simp]
theorem perform_get_bind (next : Session → Play α) (s : Session) :
    (get >>= next).perform s = (next s).perform s := perform_bind_ok rfl

@[simp]
theorem perform_pure_bind (a : α) (next : α → Play β) (s : Session) :
    (pure a >>= next).perform s = (next a).perform s := perform_bind_ok rfl

@[simp]
theorem perform_throw_bind (fault : Fault) (next : α → Play β) (s : Session) :
    ((throw fault : Play α) >>= next).perform s = (.error fault, s) := perform_bind _ _ s

@[simp]
theorem perform_adopt (result : Except Fault α) (s : Session) :
    (adopt result).perform s = (result, s) := by
  cases result <;> rfl

@[simp]
theorem perform_fit (result : Except Unfit α) (s : Session) :
    (fit result).perform s = (orUnfit result, s) := perform_adopt _ s

theorem perform_adopt_cases {told : Except Fault α} {next : α → Play β} {s t : Session}
    {result : Except Fault β} (h : (adopt told >>= next).perform s = (result, t)) :
    (∃ fault, told = .error fault ∧ result = .error fault ∧ t = s) ∨
      ∃ a, told = .ok a ∧ (next a).perform s = (result, t) := by
  cases told with
  | error fault =>
    cases h
    exact .inl ⟨fault, rfl, rfl, rfl⟩
  | ok a => exact .inr ⟨a, rfl, h⟩

theorem perform_fit_cases {told : Except Unfit α} {next : α → Play β} {s t : Session}
    {result : Except Fault β} (h : (fit told >>= next).perform s = (result, t)) :
    (∃ u, told = .error u ∧ result = .error (.unfit u) ∧ t = s) ∨
      ∃ a, told = .ok a ∧ (next a).perform s = (result, t) := by
  cases told with
  | error u =>
    cases h
    exact .inl ⟨u, rfl, rfl, rfl⟩
  | ok a => exact .inr ⟨a, rfl, h⟩

/-! ### The small plays -/

@[simp]
theorem perform_record (event : Event) (s : Session) :
    (record event).perform s = (.ok (), { s with trace := event :: s.trace }) := rfl

def logged (level : Level) (message : String) (s : Session) : List Event :=
  if s.logging.threshold.weight ≤ level.weight then
    [.log level (if s.logging.masked then s.secrets.mask message else message)]
  else []

theorem logged_of_plain {s : Session} (plain : s.logging.masked = false) (level : Level)
    (kept : s.logging.threshold.weight ≤ level.weight) (message : String) :
    logged level message s = [.log level message] := by
  rw [logged, if_pos kept, plain]
  rfl

theorem eq_log_of_mem_logged {level : Level} {message : String} {s : Session} {event : Event}
    (member : event ∈ logged level message s) : ∃ shown, event = .log level shown := by
  unfold logged at member
  split at member
  · exact ⟨_, List.mem_singleton.mp member⟩
  · cases member

@[simp]
theorem perform_log (level : Level) (message : String) (s : Session) :
    (log level message).perform s =
      (.ok (), { s with trace := logged level message s ++ s.trace }) := by
  unfold log logged
  rw [perform_get_bind]
  split
  · rfl
  · rfl

def answer (question : Question) (s : Session) : String :=
  let typed := (s.answers.next question.text).1
  if typed = "" then question.default else typed

@[simp]
theorem perform_ask (question : Question) (s : Session) :
    (ask question).perform s =
      (.ok (answer question s),
        { s with
          answers := (s.answers.next question.text).2
          trace := .ask question (answer question s) :: s.trace }) := rfl

@[simp]
theorem perform_mask (text : String) (s : Session) :
    (mask text).perform s = (.ok (s.secrets.mask text), s) := rfl

@[simp]
theorem perform_execute (command directory : String) (environment : Table String String)
    (s : Session) :
    (execute command directory environment).perform s =
      (.ok (s.reports.headD {}),
        { s with
          reports := s.reports.tail
          trace := .exec command directory environment s.context.toolchain :: s.trace }) := by
  unfold execute
  rw [perform_get_bind]
  cases s.reports with
  | nil => rfl
  | cons report rest => rfl

@[simp]
theorem perform_call (m : Mock) (invocation : Invocation) (s : Session) :
    (Registry.call m invocation).perform s =
      (.ok (m.respond s.registry.calls invocation),
        { s with
          registry := s.registry.count
          trace := (m.record.map fun name => Event.mock name invocation).toList ++ s.trace }) := by
  unfold Registry.call
  cases m.record with
  | none => rfl
  | some name => rfl

@[simp]
theorem perform_modifyLedger (f : Ledger → Ledger) (s : Session) :
    (modifyLedger f).perform s = (.ok (), { s with ledger := f s.ledger }) := rfl

@[simp]
theorem perform_modifyContext (f : Context → Context) (s : Session) :
    (modifyContext f).perform s = (.ok (), { s with context := f s.context }) := rfl

@[simp]
theorem perform_modifyPolicy (f : Policy → Policy) (s : Session) :
    (modifyPolicy f).perform s = (.ok (), { s with policy := f s.policy }) := rfl

end Rehearsal.Play

namespace Rehearsal

/-! ### Plays as rows of steps

`Proceeds` says that whatever a play does to a session, it does by steps of one kind, one after the
other. What a step is and what it does is left open. The kind is kept by the ways in which plays
are put together.
-/

/-- That a play does to every session what steps of one kind do. -/
structure Proceeds {σ α : Type} (after : σ → Session → Session) (Kind : σ → Prop) (play : Play α) :
    Prop where
  steps : ∀ s, ∃ steps : List σ, (∀ a ∈ steps, Kind a) ∧
    (play.perform s).2 = steps.foldl (fun s a => after a s) s

namespace Proceeds

variable {σ α β : Type} {after : σ → Session → Session} {Kind Wider : σ → Prop}

theorem of_idle {play : Play α} (idle : ∀ s, (play.perform s).2 = s) :
    Proceeds after Kind play := ⟨fun s => ⟨[], by simp, by simp [idle]⟩⟩

theorem of_step {play : Play α} (a : σ) (same : ∀ s, (play.perform s).2 = after a s)
    (kind : Kind a) : Proceeds after Kind play := ⟨fun s => ⟨[a], by simpa, by simp [same]⟩⟩

theorem pure (a : α) : Proceeds after Kind (Pure.pure a : Play α) := of_idle fun _ => rfl

theorem throw (fault : Fault) : Proceeds after Kind (MonadExcept.throw fault : Play α) :=
  of_idle fun _ => rfl

theorem adopt (result : Except Fault α) : Proceeds after Kind (Play.adopt result) :=
  of_idle fun s => by simp

theorem fit (result : Except Unfit α) : Proceeds after Kind (Play.fit result) := adopt _

theorem get : Proceeds after Kind (MonadState.get : Play Session) := of_idle fun _ => rfl

theorem mask (text : String) : Proceeds after Kind (Play.mask text) := of_idle fun _ => rfl

theorem exists_append {steps : List σ} {s t u : Session} (kind : ∀ a ∈ steps, Kind a)
    (same : t = steps.foldl (fun s a => after a s) s)
    (more : ∃ others : List σ, (∀ a ∈ others, Kind a) ∧ u = others.foldl (fun s a => after a s) t) :
    ∃ whole : List σ, (∀ a ∈ whole, Kind a) ∧ u = whole.foldl (fun s a => after a s) s := by
  obtain ⟨others, kinds, rfl⟩ := more
  refine ⟨steps ++ others, ?_, by rw [List.foldl_append, same]⟩
  exact List.forall_mem_append.mpr ⟨kind, kinds⟩

theorem bind_given {play : Play α} {next : α → Play β} (first : Proceeds after Kind play)
    (rest : ∀ s a t, play.perform s = (.ok a, t) → Proceeds after Kind (next a)) :
    Proceeds after Kind (play >>= next) := by
  constructor
  intro s
  obtain ⟨steps, kind, same⟩ := first.steps s
  rw [Play.perform_bind]
  cases performed : play.perform s with
  | mk result t =>
    rw [performed] at same
    cases result with
    | error fault => exact ⟨steps, kind, same⟩
    | ok a => exact exists_append kind same ((rest s a t performed).steps t)

theorem bind {play : Play α} {next : α → Play β} (first : Proceeds after Kind play)
    (rest : ∀ a, Proceeds after Kind (next a)) : Proceeds after Kind (play >>= next) :=
  bind_given first fun _ a _ _ => rest a

theorem bind_adopt {result : Except Fault α} {next : α → Play β}
    (rest : ∀ a, result = .ok a → Proceeds after Kind (next a)) :
    Proceeds after Kind (Play.adopt result >>= next) := by
  cases result with
  | error fault => exact of_idle fun s => by simp [Play.perform_bind]
  | ok a =>
    show Proceeds after Kind (Pure.pure a >>= next)
    rw [pure_bind]
    exact rest a rfl

theorem bind_fit {result : Except Unfit α} {next : α → Play β}
    (rest : ∀ a, result = .ok a → Proceeds after Kind (next a)) :
    Proceeds after Kind (Play.fit result >>= next) := by
  refine bind_adopt fun a same => rest a ?_
  cases result with
  | error u => cases same
  | ok b => exact congrArg _ (Except.ok.inj same)

theorem map {play : Play α} (f : α → β) (proceeds : Proceeds after Kind play) :
    Proceeds after Kind (f <$> play) := by
  constructor
  intro s
  obtain ⟨steps, kind, same⟩ := proceeds.steps s
  refine ⟨steps, kind, ?_⟩
  rw [← same, Play.perform_map]
  cases play.perform s with
  | mk result t => cases result <;> rfl

theorem tryCatch {play : Play α} {handle : Fault → Play α} (first : Proceeds after Kind play)
    (rest : ∀ fault, Proceeds after Kind (handle fault)) :
    Proceeds after Kind (MonadExcept.tryCatch play handle) := by
  constructor
  intro s
  obtain ⟨steps, kind, same⟩ := first.steps s
  rw [Play.perform_tryCatch]
  cases performed : play.perform s with
  | mk result t =>
    rw [performed] at same
    cases result with
    | ok a => exact ⟨steps, kind, same⟩
    | error fault => exact exists_append kind same ((rest fault).steps t)

theorem forIn {τ : Type} {items : List α} {init : τ} {f : α → τ → Play (ForInStep τ)}
    (each : ∀ a b, Proceeds after Kind (f a b)) :
    Proceeds after Kind (ForIn.forIn items init f) := by
  induction items generalizing init with
  | nil => exact pure init
  | cons a rest ih =>
    rw [List.forIn_cons]
    refine bind (each a init) fun step => ?_
    cases step with
    | done b => exact pure b
    | yield b => exact ih

theorem mapM {items : List α} {f : α → Play β} (each : ∀ a ∈ items, Proceeds after Kind (f a)) :
    Proceeds after Kind (items.mapM f) := by
  induction items with
  | nil => exact pure []
  | cons a rest ih =>
    rw [List.forall_mem_cons] at each
    rw [List.mapM_cons]
    exact bind each.1 fun _ => bind (ih each.2) fun _ => pure _

theorem mono {play : Play α} (proceeds : Proceeds after Kind play) (wider : ∀ a, Kind a → Wider a) :
    Proceeds after Wider play := by
  constructor
  intro s
  obtain ⟨steps, kind, same⟩ := proceeds.steps s
  exact ⟨steps, fun a member => wider a (kind a member), same⟩

end Proceeds
end Rehearsal
