import Rehearsal.Job.Instance
import Rehearsal.Proofs.Play.Perform

/-! Whatever a job does to a session is done by deeds, one after the other. `Does` says of which
kind the deeds of a play are; it is closed under the ways in which plays are put together. -/

namespace Rehearsal

/-- A single thing that a job does to a session. -/
inductive Deed where
  | log (level : Level) (message : String)
  | echo (text : String)
  | ask (question : Question)
  | execute (command directory : String) (environment : Table String String)
  | call (m : Mock) (invocation : Invocation)
  | pause
  | keepMock (action : String) (m : Option Mock)
  | remember (expression value : String)
  | register (secret : String)
  | recordStep (job : Scalar) (step : String) (outputs : Outputs)
  | recordJob (job : Scalar) (name value : String)
  | allowJobs
  | allowCommands
  | start (name : Scalar)
  | skip
  | addStep (step : StepResult)
  | endStep (status : Status)
  | failStep

namespace Deed

/-- The play that does a deed and nothing else. -/
def play : Deed → Play Unit
  | log level message => Play.log level message
  | echo text => Play.echo text
  | ask question => discard (Play.ask question)
  | execute command directory environment =>
    discard (Play.execute command directory environment)
  | call m invocation => discard (Registry.call m invocation)
  | pause => Play.record .pause
  | keepMock action m => modify fun s => { s with registry := s.registry.keep action m }
  | remember expression value => Play.modifyContext (Context.remember expression value)
  | register secret => modify fun s => { s with secrets := s.secrets.register secret }
  | recordStep job step outputs => Play.modifyContext (Context.recordStep job step outputs)
  | recordJob job name value => Play.modifyContext (Context.recordJob job name value)
  | allowJobs => Play.modifyPolicy fun p => { p with runAllJobs := true }
  | allowCommands => Play.modifyPolicy fun p => { p with runAllCommands := true }
  | start name => Play.modifyLedger (Ledger.start name)
  | skip => Job.skip
  | addStep step => Play.modifyLedger (Ledger.updateLast (JobResult.addStep step))
  | endStep status => Play.modifyLedger (Ledger.updateLast (JobResult.setLastStep status))
  | failStep => Job.failLast

/-- The session after a deed. -/
def after (d : Deed) (s : Session) : Session := (d.play.perform s).2

/-- The session after deeds, one after the other. -/
def all (deeds : List Deed) (s : Session) : Session := deeds.foldl (fun s d => d.after s) s

theorem after_log (level : Level) (message : String) (s : Session) :
    (log level message).after s = { s with trace := Play.logged level message s ++ s.trace } := by
  show ((Play.log level message).perform s).2 = _
  rw [Play.perform_log]

theorem perform_log_eq_after (level : Level) (message : String) (s : Session) :
    (Play.log level message).perform s = (.ok (), (log level message).after s) :=
  Prod.ext (by rw [Play.perform_log]) rfl

theorem perform_info_eq_after (message : String) (s : Session) :
    (Play.info message).perform s = (.ok (), (log .info message).after s) :=
  perform_log_eq_after ..

theorem perform_ask_eq_after (question : Question) (s : Session) :
    (Play.ask question).perform s = (.ok (Play.answer question s), (ask question).after s) :=
  Prod.ext rfl (Play.perform_discard ..).symm

theorem perform_execute_eq_after (command directory : String)
    (environment : Table String String) (s : Session) :
    (Play.execute command directory environment).perform s =
      (.ok (s.reports.headD {}), (execute command directory environment).after s) :=
  Prod.ext (by rw [Play.perform_execute]) (Play.perform_discard ..).symm

theorem perform_call_eq_after (m : Mock) (invocation : Invocation) (s : Session) :
    (Registry.call m invocation).perform s =
      (.ok (m.respond s.registry.calls invocation), (call m invocation).after s) :=
  Prod.ext (by rw [Play.perform_call]) (Play.perform_discard ..).symm

theorem after_execute (command directory : String) (environment : Table String String)
    (s : Session) : (execute command directory environment).after s =
      { s with
        reports := s.reports.tail
        trace := .exec command directory environment s.context.toolchain :: s.trace } := by
  show ((discard (Play.execute command directory environment)).perform s).2 = _
  rw [Play.perform_discard, Play.perform_execute]

@[simp]
theorem all_nil (s : Session) : all [] s = s := rfl

@[simp]
theorem all_cons (d : Deed) (deeds : List Deed) (s : Session) :
    all (d :: deeds) s = all deeds (d.after s) := rfl

theorem all_append (deeds more : List Deed) (s : Session) :
    all (deeds ++ more) s = all more (all deeds s) := List.foldl_append ..

theorem exists_all_append {Kind : Deed → Prop} {deeds : List Deed} {s t u : Session}
    (kind : ∀ d ∈ deeds, Kind d) (same : t = all deeds s)
    (more : ∃ others, (∀ d ∈ others, Kind d) ∧ u = all others t) :
    ∃ whole, (∀ d ∈ whole, Kind d) ∧ u = all whole s := Proceeds.exists_append kind same more

/-! ### What deeds leave alone -/

@[simp]
theorem after_completed (d : Deed) (s : Session) :
    (d.after s).ledger.completed = s.ledger.completed := by
  cases d <;>
    simp [after, play, Play.echo, Play.perform_discard, Job.skip, Job.failLast, Ledger.start]

@[simp]
theorem after_logging (d : Deed) (s : Session) : (d.after s).logging = s.logging := by
  cases d <;> simp [after, play, Play.echo, Play.perform_discard, Job.skip, Job.failLast]

@[simp]
theorem after_dryRun (d : Deed) (s : Session) :
    (d.after s).policy.dryRun = s.policy.dryRun := by
  cases d <;> simp [after, play, Play.echo, Play.perform_discard, Job.skip, Job.failLast]

def events (s : Session) : Deed → List Event
  | log level message => Play.logged level message s
  | echo text => [.echo text]
  | ask question => [.ask question (Play.answer question s)]
  | execute command directory environment =>
    [.exec command directory environment s.context.toolchain]
  | call m invocation => (m.record.map fun name => Event.mock name invocation).toList
  | pause => [.pause]
  | _ => []

theorem after_trace (d : Deed) (s : Session) : (d.after s).trace = d.events s ++ s.trace := by
  cases d <;>
    simp [after, play, events, Play.echo, Play.perform_discard, Job.skip, Job.failLast]

theorem eq_log_of_mem_events {d : Deed} {s : Session} {level : Level} {message : String}
    (plain : s.logging.masked = false) (member : .log level message ∈ d.events s) :
    d = log level message := by
  cases d with
  | log own text =>
    simp only [events, Play.logged, plain] at member
    split at member
    · obtain ⟨rfl, rfl⟩ := by simpa using member
      rfl
    · cases member
  | _ => simp [events] at member

theorem all_keep {Kind : Deed → Prop} {Fit : Session → Prop}
    (deed : ∀ {d s}, Kind d → Fit s → Fit (d.after s)) {deeds : List Deed}
    (kind : ∀ d ∈ deeds, Kind d) {s : Session} (fit : Fit s) : Fit (Deed.all deeds s) := by
  induction deeds generalizing s with
  | nil => exact fit
  | cons d deeds ih =>
    obtain ⟨own, others⟩ := List.forall_mem_cons.mp kind
    exact ih others (deed own fit)

theorem all_same {β : Type} {Kind : Deed → Prop} (part : Session → β)
    (kept : ∀ d s, Kind d → part (d.after s) = part s) {deeds : List Deed}
    (kind : ∀ d ∈ deeds, Kind d) (s : Session) : part (all deeds s) = part s :=
  @all_keep Kind (part · = part s) (fun own same => (kept _ _ own).trans same) deeds kind s rfl

theorem all_completed (deeds : List Deed) (s : Session) :
    (all deeds s).ledger.completed = s.ledger.completed :=
  all_same (·.ledger.completed) (fun d s _ => after_completed d s) (fun _ _ => trivial) s

theorem all_logging (deeds : List Deed) (s : Session) : (all deeds s).logging = s.logging :=
  all_same (·.logging) (fun d s _ => after_logging d s) (fun _ _ => trivial) s

/-! ### Kinds of deeds -/

def saysStuck (level : Level) (message : String) : Bool :=
  level == .warning && Text.startsWith message "No jobs could run"

def Resolves : Deed → Prop
  | log level message => saysStuck level message = false
  | echo _ | ask _ | remember _ _ | register _ => True
  | _ => False

/-- The deeds that find a value without a confirmation. -/
def Inquires : Deed → Prop
  | ask question => Answers.isConfirmation question.text = false
  | d => d.Resolves

/-- The deeds of a step of a job. -/
def OfStep (job : Scalar) : Deed → Prop
  | execute _ _ _ | call _ _ | pause | keepMock _ _ | allowCommands => True
  | recordStep owner _ _ => owner = job
  | d => d.Resolves

def Works (job : Scalar) : Deed → Prop
  | ask question => Answers.isConfirmation question.text = false
  | allowCommands => False
  | d => d.OfStep job

/-- The deeds of a job. -/
def OfJob (job : Scalar) : Deed → Prop
  | recordJob owner _ _ => owner = job
  | start name => ∃ bindings, Job.displayName job bindings = .ok name
  | allowJobs | skip | addStep _ | endStep _ | failStep => True
  | d => d.OfStep job

theorem Inquires.works {job : Scalar} {d : Deed} (h : d.Inquires) : d.Works job := by
  cases d <;> first | exact h | exact h.elim

theorem Works.ofStep {job : Scalar} {d : Deed} (h : d.Works job) : d.OfStep job := by
  cases d <;> first | exact h | exact h.elim | trivial

theorem OfStep.ofJob {job : Scalar} {d : Deed} (h : d.OfStep job) : d.OfJob job := by
  cases d <;> first | exact h | exact h.elim

theorem inquires_info (message : String) : Inquires (log .info message) := by
  simp [Inquires, Resolves, saysStuck]

theorem inquires_debug (message : String) : Inquires (log .debug message) := by
  simp [Inquires, Resolves, saysStuck]

theorem inquires_error (message : String) : Inquires (log .error message) := by
  simp [Inquires, Resolves, saysStuck]

theorem OfJob.saysStuck_eq_false {job : Scalar} {level : Level} {message : String}
    (h : OfJob job (log level message)) : saysStuck level message = false := h

theorem all_events (deeds : List Deed) (s : Session) :
    ∃ new, (all deeds s).trace = new ++ s.trace ∧
      ∀ event ∈ new, ∃ d ∈ deeds, ∃ u, u.logging = s.logging ∧ event ∈ d.events u := by
  induction deeds generalizing s with
  | nil => exact ⟨[], rfl, by simp⟩
  | cons d deeds ih =>
    obtain ⟨new, trace, own⟩ := ih (d.after s)
    refine ⟨new ++ d.events s, ?_, ?_⟩
    · rw [all_cons, trace, after_trace, List.append_assoc]
    · intro event member
      rcases List.mem_append.mp member with later | first
      · obtain ⟨other, done, u, logging, left⟩ := own event later
        exact ⟨other, List.mem_cons_of_mem _ done, u, by rw [logging, after_logging], left⟩
      · exact ⟨d, List.mem_cons_self, s, rfl, first⟩

theorem all_trace (deeds : List Deed) (s : Session) (plain : s.logging.masked = false) :
    ∃ new, (all deeds s).trace = new ++ s.trace ∧
      ∀ level message, .log level message ∈ new → log level message ∈ deeds := by
  obtain ⟨new, trace, own⟩ := all_events deeds s
  refine ⟨new, trace, ?_⟩
  intro level message member
  obtain ⟨d, done, u, logging, left⟩ := own _ member
  rw [← eq_log_of_mem_events (logging ▸ plain) left]
  exact done

end Deed

/-- Whatever a play does to a session, it does by deeds of one kind. -/
structure Does {α : Type} (Kind : Deed → Prop) (play : Play α) : Prop where
  deeds : ∀ s, ∃ deeds, (∀ d ∈ deeds, Kind d) ∧ (play.perform s).2 = Deed.all deeds s

namespace Does

variable {α β : Type} {Kind Wider : Deed → Prop}

theorem of_proceeds {play : Play α} (proceeds : Proceeds Deed.after Kind play) : Does Kind play :=
  ⟨proceeds.steps⟩

theorem proceeds {play : Play α} (does : Does Kind play) : Proceeds Deed.after Kind play :=
  ⟨does.deeds⟩

theorem of_deed {play : Play α} (d : Deed) (same : ∀ s, (play.perform s).2 = d.after s)
    (kind : Kind d) : Does Kind play := of_proceeds (.of_step d same kind)

theorem pure (a : α) : Does Kind (Pure.pure a : Play α) := of_proceeds (.pure a)

theorem throw (fault : Fault) : Does Kind (MonadExcept.throw fault : Play α) :=
  of_proceeds (.throw fault)

theorem adopt (result : Except Fault α) : Does Kind (Play.adopt result) := of_proceeds (.adopt _)

theorem fit (result : Except Unfit α) : Does Kind (Play.fit result) := of_proceeds (.fit _)

theorem get : Does Kind (MonadState.get : Play Session) := of_proceeds .get

theorem mask (text : String) : Does Kind (Play.mask text) := of_proceeds (.mask text)

theorem bind {play : Play α} {next : α → Play β} (first : Does Kind play)
    (rest : ∀ a, Does Kind (next a)) : Does Kind (play >>= next) :=
  of_proceeds (.bind first.proceeds fun a => (rest a).proceeds)

theorem forIn {σ : Type} {items : List α} {init : σ} {f : α → σ → Play (ForInStep σ)}
    (each : ∀ a b, Does Kind (f a b)) : Does Kind (ForIn.forIn items init f) :=
  of_proceeds (.forIn fun a b => (each a b).proceeds)

theorem keeps {play : Play α} (part : Session → β) (does : Does Kind play)
    (kept : ∀ d s, Kind d → part (d.after s) = part s) (s : Session) :
    part (play.perform s).2 = part s := by
  obtain ⟨deeds, kind, same⟩ := does.deeds s
  rw [same]
  exact Deed.all_same part kept kind s

theorem mono {play : Play α} (does : Does Kind play) (wider : ∀ d, Kind d → Wider d) :
    Does Wider play := of_proceeds (does.proceeds.mono wider)

theorem works {play : Play α} {job : Scalar} (does : Does Deed.Inquires play) :
    Does (Deed.Works job) play := does.mono fun _ => Deed.Inquires.works

theorem log {level : Level} {message : String} (kind : Kind (.log level message)) :
    Does Kind (Play.log level message) := of_deed (.log level message) (fun _ => rfl) kind

theorem echo {text : String} (kind : Kind (.echo text)) : Does Kind (Play.echo text) :=
  of_deed (.echo text) (fun _ => rfl) kind

theorem ask {question : Question} (kind : Kind (.ask question)) :
    Does Kind (Play.ask question) := of_deed (.ask question) (fun _ => rfl) kind

end Does

/-- That deeds of a kind lead from one session to another. -/
def Reaches (Kind : Deed → Prop) (s t : Session) : Prop :=
  ∃ deeds, (∀ d ∈ deeds, Kind d) ∧ t = Deed.all deeds s

namespace Reaches

variable {Kind Wider : Deed → Prop} {s t u : Session}

theorem refl (s : Session) : Reaches Kind s s := ⟨[], List.forall_mem_nil _, rfl⟩

theorem trans (first : Reaches Kind s t) (rest : Reaches Kind t u) : Reaches Kind s u := by
  obtain ⟨deeds, kind, same⟩ := first
  exact Deed.exists_all_append kind same rest

theorem deed {d : Deed} (kind : Kind d) (reaches : Reaches Kind s t) :
    Reaches Kind s (d.after t) :=
  reaches.trans ⟨[d], List.forall_mem_singleton.mpr kind, rfl⟩

theorem mono (reaches : Reaches Kind s t) (wider : ∀ {d}, Kind d → Wider d) :
    Reaches Wider s t := by
  obtain ⟨deeds, kind, same⟩ := reaches
  exact ⟨deeds, fun d member => wider (kind d member), same⟩

theorem of_does {α : Type} {play : Play α} {result : Except Fault α} (does : Does Kind play)
    (performed : play.perform s = (result, t)) : Reaches Kind s t := by
  obtain ⟨deeds, kind, same⟩ := does.deeds s
  exact ⟨deeds, kind, by rw [← same, performed]⟩

end Reaches

/-! ### What is recorded while a value is found -/

/-- That two sessions have the same outputs on record. -/
structure Session.SameOutputs (s t : Session) : Prop where
  jobs : t.context.jobs = s.context.jobs
  steps : t.context.steps = s.context.steps

theorem Session.SameOutputs.trans {s t u : Session} (first : s.SameOutputs t)
    (rest : t.SameOutputs u) : s.SameOutputs u :=
  ⟨rest.jobs.trans first.jobs, rest.steps.trans first.steps⟩

theorem Context.jobOutput?_congr {c d : Context} (same : d.jobs = c.jobs) (job : Scalar)
    (name : String) : d.jobOutput? job name = c.jobOutput? job name := by
  rw [jobOutput?, same]
  rfl

theorem Session.SameOutputs.jobOutput? {s t : Session} (same : s.SameOutputs t) (job : Scalar)
    (name : String) : t.context.jobOutput? job name = s.context.jobOutput? job name :=
  Context.jobOutput?_congr same.jobs job name

theorem Session.SameOutputs.stepOutput? {s t : Session} (same : s.SameOutputs t) (job : Scalar)
    (id name : String) :
    t.context.stepOutput? job id name = s.context.stepOutput? job id name := by
  rw [Context.stepOutput?, same.steps]
  rfl

def Deed.Spares (d : Deed) : Prop := ∀ s : Session, s.SameOutputs (d.after s)

theorem Does.sameOutputs_of_spares {α : Type} {play : Play α} {s t : Session}
    {result : Except Fault α} (does : Does Deed.Spares play)
    (performed : play.perform s = (result, t)) : s.SameOutputs t := by
  obtain ⟨deeds, kind, same⟩ := does.deeds s
  rw [performed] at same
  obtain rfl : t = _ := same
  clear performed
  induction deeds generalizing s with
  | nil => exact ⟨rfl, rfl⟩
  | cons d deeds ih =>
    obtain ⟨own, others⟩ := List.forall_mem_cons.mp kind
    exact (own s).trans (ih others)

theorem Deed.Inquires.spares {d : Deed} (h : d.Inquires) : d.Spares := by
  intro s
  cases d <;> first
    | exact h.elim
    | constructor <;> simp [after, play, Play.echo, Play.perform_discard, Context.remember]

theorem Does.sameOutputs {α : Type} {play : Play α} {s t : Session} {result : Except Fault α}
    (does : Does Deed.Inquires play) (performed : play.perform s = (result, t)) :
    s.SameOutputs t :=
  (does.mono fun _ => Deed.Inquires.spares).sameOutputs_of_spares performed

end Rehearsal
