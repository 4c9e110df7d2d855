import Rehearsal.Proofs.Run.Closing
import Rehearsal.Proofs.Run.Success

/-! The user can quit when asked about an instance of a job, about a command, or after a command
failed. This is written to the log, an instance that was asked about is skipped, and a fault goes
through the rest of the job to the end of the run, where it is written that the run was stopped. -/

namespace Rehearsal

open Play

variable {job : Scalar} {s t u : Session}

def Event.quits : Event → Bool
  | ask question answer =>
    Answers.isConfirmation question.text && Confirmation.parse answer == .quit
  | _ => false

theorem Event.Aside.quits {event : Event} (aside : event.Aside) : event.quits = false := by
  cases event with
  | ask question answer =>
    have other : Answers.isConfirmation question.text = false := aside.unconfirmed
    rw [Event.quits, other, Bool.false_and]
  | _ => rfl

/-! ### Deeds with which the user does not quit -/

namespace Deed

structure Stays (job : Scalar) (d : Deed) : Prop where
  ofJob : d.OfJob job
  events : ∀ s, ∀ event ∈ d.events s, event.quits = false

theorem Stays.of_events {d : Deed} (own : d.OfJob job) (none : ∀ s, d.events s = []) :
    d.Stays job := by
  refine ⟨own, fun s event member => ?_⟩
  rw [none s] at member
  cases member

theorem Inquires.stays {d : Deed} (h : d.Inquires) : d.Stays job := by
  refine ⟨h.works.ofStep.ofJob, fun s event member => (h.aside.events member).quits⟩

theorem Attends.stays {d : Deed} (h : d.Attends) : d.Stays job := by
  cases d with
  | keepMock | addStep | endStep | failStep => exact .of_events trivial fun _ => rfl
  | execute | pause =>
    refine ⟨trivial, fun s event member => ?_⟩
    rw [List.mem_singleton.mp member]
    rfl
  | call =>
    refine ⟨trivial, fun s event member => ?_⟩
    obtain ⟨name, -, rfl⟩ := by simpa [Deed.events] using member
    rfl
  | log | echo | ask | remember | register => exact Inquires.stays h
  | _ => exact h.elim

theorem Between.stays {d : Deed} (h : d.Between job) : d.Stays job := by
  cases d with
  | recordJob | start | skip => exact .of_events h.ofJob fun _ => rfl
  | log | echo | ask | remember | register => exact Inquires.stays h
  | _ => exact h.elim

end Deed

/-- That the user did not quit between two sessions. -/
def Session.Stayed (s t : Session) : Prop :=
  ∃ new, t.trace = new ++ s.trace ∧ ∀ event ∈ new, event.quits = false

namespace Session.Stayed

theorem of_trace (same : t.trace = s.trace) : s.Stayed t := ⟨[], same, List.forall_mem_nil _⟩

theorem refl (s : Session) : s.Stayed s := of_trace rfl

theorem trans (first : s.Stayed t) (rest : t.Stayed u) : s.Stayed u := by
  obtain ⟨new, added, stayed⟩ := first
  obtain ⟨more, adds, stays⟩ := rest
  exact ⟨more ++ new, by rw [adds, added, List.append_assoc],
    List.forall_mem_append.mpr ⟨stays, stayed⟩⟩

theorem step {d : Deed} (stays : ∀ event ∈ d.events t, event.quits = false)
    (stayed : s.Stayed t) : s.Stayed (d.after t) :=
  stayed.trans ⟨d.events t, d.after_trace t, stays⟩

theorem log {level : Level} {message : String} (stayed : s.Stayed t) :
    s.Stayed ((Deed.log level message).after t) := by
  refine stayed.step fun event member => ?_
  obtain ⟨shown, rfl⟩ := eq_log_of_mem_logged member
  rfl

end Session.Stayed

/-- That deeds of a job lie between two sessions and the user did not quit. -/
structure Remains (job : Scalar) (s t : Session) : Prop where
  stayed : s.Stayed t
  reaches : Reaches (Deed.OfJob job) s t

namespace Remains

theorem refl (job : Scalar) (s : Session) : Remains job s s := ⟨.refl s, .refl s⟩

theorem step {d : Deed} (own : d.OfJob job) (stays : ∀ event ∈ d.events t, event.quits = false)
    (remains : Remains job s t) : Remains job s (d.after t) :=
  ⟨remains.stayed.step stays, remains.reaches.deed own⟩

theorem ask {q : Question} (other : Step.reply q t ≠ .quit) (remains : Remains job s t) :
    Remains job s ((Deed.ask q).after t) := by
  refine remains.step trivial fun event member => ?_
  rw [List.mem_singleton.mp member, Event.quits, Bool.and_eq_false_iff]
  exact .inr (beq_eq_false_iff_ne.mpr other)

theorem log (message : String) (remains : Remains job s t) :
    Remains job s ((Deed.log .info message).after t) := by
  refine remains.step (Deed.inquires_info message) fun event member => ?_
  obtain ⟨shown, rfl⟩ := eq_log_of_mem_logged member
  rfl

end Remains

/-- The questions at which the user can quit, each with what is done then. -/
inductive Leaving : Question → List Deed → Prop where
  | command : Leaving Step.commandQuestion [.log .info "Quitting workflow execution"]
  | failure : Leaving Step.failureQuestion [.log .info "Quitting workflow execution"]
  | job (title : String) :
      Leaving (Job.jobQuestion title) [.log .info "Quitting workflow execution", .skip]

theorem Leaving.confirms {q : Question} {deeds : List Deed} (leaving : Leaving q deeds) :
    Answers.isConfirmation q.text = true := by
  cases leaving with
  | command => exact Step.commandQuestion_confirms
  | failure => exact Step.failureQuestion_confirms
  | job title => exact isConfirmation_append _

theorem Leaving.quits {q : Question} {deeds : List Deed} (leaving : Leaving q deeds)
    (said : Step.reply q s = .quit) : (Event.ask q (answer q s)).quits = true := by
  rw [Event.quits, leaving.confirms, Bool.true_and, beq_iff_eq]
  exact said

/-- That a session is what a fault of a job leaves: the user has just quit exactly if that is the
fault. -/
inductive Breaks (job : Scalar) (s : Session) : Fault → Session → Prop where
  | quit {q : Question} {deeds : List Deed} {u : Session} (leaving : Leaving q deeds)
      (before : Remains job s u) (said : Step.reply q u = .quit) :
      Breaks job s .quit (Deed.all deeds ((Deed.ask q).after u))
  | other {fault : Fault} {t : Session} (stays : fault ≠ .quit) (remains : Remains job s t) :
      Breaks job s fault t

theorem Breaks.remains {fault : Fault} (breaks : Breaks job s fault t) (other : fault ≠ .quit) :
    Remains job s t := by
  cases breaks with
  | quit => exact absurd rfl other
  | other _ remains => exact remains

theorem Breaks.exists_leaving (breaks : Breaks job s .quit t) :
    ∃ q deeds u, Leaving q deeds ∧ Remains job s u ∧ Step.reply q u = .quit ∧
      t = Deed.all deeds ((Deed.ask q).after u) := by
  cases breaks with
  | quit leaving before said => exact ⟨_, _, _, leaving, before, said, rfl⟩
  | other stays => exact absurd rfl stays

/-- That a play is done by deeds of a job, and ends with that fault when the user quits. -/
abbrev Bides {α : Type} (job : Scalar) (s : Session) (play : Play α) : Prop :=
  Maintains (Remains job s) (Breaks job s) play

theorem biding (job : Scalar) (s : Session) :
    Bears (Deed.Stays job) (Remains job s) (Breaks job s) where
  inquires h := h.stays
  deed stays remains := remains.step stays.ofJob (stays.events _)
  fault ordinary remains := .other ordinary.ne_quit remains

theorem info_bides (message : String) : Bides job s (info message) := (biding job s).info message

/-! ### Steps -/

namespace Step

theorem goesOn_bides {text : String}
    (leaving : Leaving ⟨text ++ Answers.confirmationEnd, "n", false⟩
      [.log .info "Quitting workflow execution"]) : Bides job s (confirm text >>= goesOn) := by
  constructor
  intro t remains
  rw [perform_bind_ok (perform_confirm text t), perform_goesOn]
  cases said : reply ⟨text ++ Answers.confirmationEnd, "n", false⟩ t with
  | quit => exact .quit leaving remains said
  | all =>
    have asked := remains.ask (by rw [said]; nofun)
    have allowed := asked.step (d := .allowCommands) trivial (fun _ member => by cases member)
    exact allowed.log _
  | yes | no | skip => exact remains.ask (by rw [said]; nofun)

theorem commandAllowed_bides : Bides job s commandAllowed := by
  refine .get fun t _ => ?_
  split
  · exact .pure _
  · exact goesOn_bides .command

theorem goesOnAfterFailure_bides : Bides job s goesOnAfterFailure := by
  refine .get fun t _ => ?_
  split
  · refine .bind ((biding job s).log (show Deed.saysStuck _ _ = false from ?_)) fun _ => .pure _
    simp [Deed.saysStuck, Text.startsWith, Text.after?]
  · rw [← bind_assoc]
    refine .bind (goesOn_bides .failure) fun goes => ?_
    split
    · exact .pure _
    · exact .bind (info_bides _) fun _ => .pure _

theorem tending (job : Scalar) (s : Session) : Tends (Remains job s) (Breaks job s) where
  toBears := (biding job s).mono (fun h => h.mocks.attends) Deed.Attends.stays
  mismatch := ⟨fun breaks => breaks.remains nofun, .other nofun⟩
  commands := commandAllowed_bides
  failures := goesOnAfterFailure_bides

end Step

/-! ### Jobs -/

namespace Job

theorem runStep_bides (site : Step.Site) (step : Value) (index : Nat) :
    Bides site.job s (runStep site step index) := by
  have tends := Step.tending site.job s
  refine maintains_runStep tends fun stepId outputs _ =>
    Step.maintains_recordOutputs tends.mocks fun t remains => ?_
  exact remains.step rfl fun _ member => by cases member

theorem confirmed_bides (title : String) : Bides job s (confirmed title) := by
  refine .of_left fun remains performed => ?_
  cases answered_of_perform performed with
  | unasked => exact remains
  | yes said => exact remains.ask (by rw [said]; nofun)
  | all said =>
    have granted := remains.ask (q := jobQuestion title) (by rw [said]; nofun)
    have allowed := granted.step (d := .allowJobs) trivial (fun _ member => by cases member)
    exact allowed.log _
  | no said refused => exact (remains.ask said).log _
  | quit said =>
    have breaks := Breaks.quit (.job title) remains said
    rw [Deed.all_cons, Deed.all_cons, Deed.all_nil] at breaks
    exact breaks

theorem run_bides (workflow : Mapping) (root : String) (name : Scalar) (definition : Value) :
    Bides name s (run workflow root name definition) := by
  have bears := (biding name s).mono Deed.Inquires.between Deed.Between.stays
  apply maintains_run bears confirmed_bides
  rintro site step index - rfl
  exact runStep_bides site step index

end Job

/-! ### What is left of a run when the user quits -/

namespace Ledger

theorem updateLast_eq_jobs (f : JobResult → JobResult) (l : Ledger) :
    l.updateLast f = { l with jobs := (l.updateLast f).jobs } := by
  unfold updateLast
  split <;> rfl

@[simp]
theorem aborted_updateLast (f : JobResult → JobResult) (l : Ledger) :
    (l.updateLast f).aborted = l.aborted := by
  rw [updateLast_eq_jobs]

end Ledger

namespace Deed

@[simp]
theorem after_aborted (d : Deed) (s : Session) :
    (d.after s).ledger.aborted = s.ledger.aborted := by
  cases d <;>
    simp [after, play, Play.echo, Play.perform_discard, Job.skip, Job.failLast, Ledger.start]

theorem all_aborted (deeds : List Deed) (s : Session) :
    (all deeds s).ledger.aborted = s.ledger.aborted := by
  induction deeds generalizing s with
  | nil => rfl
  | cons d deeds ih => rw [all_cons, ih, after_aborted]

end Deed

/-- What is done when the user quits is one log record, and at most a change of the last result. -/
theorem Leaving.all {q : Question} {deeds : List Deed} (leaving : Leaving q deeds) (s : Session) :
    ∃ jobs, (jobs = s.ledger.jobs ∨
        jobs = (s.ledger.updateLast (JobResult.setStatus .skipped)).jobs) ∧
      Deed.all deeds s = { s with
        ledger := { s.ledger with jobs }
        trace := logged .info "Quitting workflow execution" s ++ s.trace } := by
  cases leaving with
  | command | failure =>
    refine ⟨_, .inl rfl, ?_⟩
    rw [Deed.all_cons, Deed.all_nil, Deed.after_log]
  | job title =>
    refine ⟨_, .inr rfl, ?_⟩
    rw [Deed.all_cons, Deed.all_cons, Deed.all_nil, Deed.after_log, ← Ledger.updateLast_eq_jobs]
    rfl

theorem Leaving.aborted {q : Question} {deeds : List Deed} (leaving : Leaving q deeds)
    (s : Session) :
    ∃ jobs, (jobs = s.ledger.jobs ∨
        jobs = (s.ledger.updateLast (JobResult.setStatus .skipped)).jobs) ∧
      (Deed.all deeds s).ledger.jobs = jobs ∧
      Run.aborted (Deed.all deeds s) = { s with
        ledger := { s.ledger with jobs, aborted := true }
        trace := logged .info "Workflow execution stopped by user" s ++
          (logged .info "Quitting workflow execution" s ++ s.trace) } := by
  obtain ⟨jobs, kept, same⟩ := leaving.all s
  refine ⟨jobs, kept, by rw [same], ?_⟩
  rw [same, Run.aborted, Deed.after_log]
  rfl

namespace Run

variable {workflow jobs : Mapping} {root : String} {result : Except Fault Unit} {turns : List Turn}
  {turn : Turn}

theorem Turn.Taken.left (taken : turn.Taken workflow root jobs) :
    Left (Remains turn.name turn.start) (Breaks turn.name turn.start) turn.result turn.finish :=
  (Job.run_bides workflow root turn.name turn.job).left (.refl ..) taken.ran

theorem Turns.stayed (turned : Turns workflow root jobs s turns result u) :
    result ≠ .error .quit ∧ s.Stayed u ∨
      ∃ before turn, turns = before ++ [turn] ∧ turn.Taken workflow root jobs ∧
        result = .error .quit ∧ turn.result = .error .quit ∧ turn.finish = u ∧
        s.Stayed turn.start := by
  induction turned with
  | none s => exact .inl ⟨nofun, .refl s⟩
  | @unclear fault s entry stated unreadable =>
    have settles := Job.needs_settles entry.2
    rw [unreadable] at settles
    exact .inl ⟨fun same => settles.ne_quit (Except.error.inj same), .refl s⟩
  | @failed t fault taken failed =>
    have left := taken.left
    rw [failed] at left
    by_cases quits : fault = .quit
    · subst quits
      exact .inr ⟨[], t, rfl, taken, rfl, failed, rfl, .refl _⟩
    · exact .inl ⟨fun same => quits (Except.error.inj same), (left.remains quits).stayed⟩
  | @next t turns result u taken ended rest ih =>
    have left := taken.left
    rw [ended] at left
    have noted : t.start.Stayed t.noted := left.stayed.trans (.of_trace rfl)
    rcases ih with ⟨other, stayed⟩ | ⟨before, turn, rfl, own, quits, fails, finish, stayed⟩
    · exact .inl ⟨other, noted.trans stayed⟩
    · exact .inr ⟨t :: before, turn, rfl, own, quits, fails, finish, noted.trans stayed⟩

theorem Turns.aborted_eq (turned : Turns workflow root jobs s turns result u) :
    u.ledger.aborted = s.ledger.aborted := by
  induction turned with
  | none => rfl
  | unclear => rfl
  | failed => exact Deed.all_aborted ..
  | @next t _ _ _ _ _ _ ih =>
    rw [ih]
    exact Deed.all_aborted t.deeds t.start

theorem Opened.stayed (opened : Opened s u) : s.Stayed u := by
  obtain ⟨records, toolchain, logs, same⟩ := opened.rest
  refine ⟨records, by rw [same], fun event member => ?_⟩
  obtain ⟨message, rfl⟩ := logs event member
  rfl

theorem Closing.goes {last : Session} {ended : Except Fault Unit}
    (closing : Closing last ended result t) (other : ended ≠ .error .quit) :
    result ≠ .error .quit ∧ last.Stayed t ∧ t.ledger.aborted = last.ledger.aborted := by
  cases closing with
  | quit => exact absurd rfl other
  | failed stays => exact ⟨other, .refl _, rfl⟩
  | ended settles reports =>
    refine ⟨?_, ?_, Deed.all_aborted ..⟩
    · rintro rfl
      exact settles
    · refine Deed.all_keep (fun own stayed => ?_) reports (Session.Stayed.refl last)
      obtain ⟨message, rfl⟩ := own
      exact stayed.log

/-- That a run ended in a turn because the user answered a question by quitting, `u` being the
session in which it was asked. -/
structure Turn.Abandoned (turn : Turn) (q : Question) (s u t : Session) : Prop where
  stayed : s.Stayed u
  before : Remains turn.name turn.start u
  leaving : ∃ deeds, Leaving q deeds
  said : Step.reply q u = .quit
  /-- The answer is followed by two log records, and nothing changes but the ledger. -/
  rest : t = { (Deed.ask q).after u with
    ledger := t.ledger
    trace := logged .info "Workflow execution stopped by user" u ++
      (logged .info "Quitting workflow execution" u ++ ((Deed.ask q).after u).trace) }
  ledger : t.ledger = { u.ledger with aborted := true, jobs := t.ledger.jobs }
  jobs : t.ledger.jobs = u.ledger.jobs ∨
    t.ledger.jobs = (u.ledger.updateLast (JobResult.setStatus .skipped)).jobs
  results : turn.start.ledger.jobs <+: t.ledger.jobs

theorem Turn.Taken.abandoned (taken : turn.Taken workflow root jobs)
    (quits : turn.result = .error .quit) (stayed : s.Stayed turn.start) :
    ∃ q u, turn.Abandoned q s u (aborted turn.finish) := by
  have left := taken.left
  rw [quits] at left
  obtain ⟨q, deeds, u, leaving, before, said, finish⟩ := Breaks.exists_leaving left
  obtain ⟨entries, kept, placed, same⟩ := leaving.aborted ((Deed.ask q).after u)
  obtain ⟨runs, ran⟩ := Job.instances_of_run taken.stated taken.ran
  have added : turn.finish.ledger.jobs = turn.start.ledger.jobs ++ runs.map (·.entry) :=
    ran.ledger
  rw [finish, placed] at added
  rw [finish, same]
  refine ⟨q, u, stayed.trans before.stayed, before, ⟨deeds, leaving⟩, said, rfl, rfl, kept, ?_⟩
  exact ⟨runs.map (·.entry), added.symm⟩

theorem Turn.Abandoned.mem {q : Question} (abandoned : turn.Abandoned q s u t) :
    .ask q (answer q u) ∈ t.since s ∧ (Event.ask q (answer q u)).quits = true := by
  obtain ⟨new, added, -⟩ := abandoned.stayed
  obtain ⟨deeds, leaving⟩ := abandoned.leaving
  have trace := congrArg Session.trace abandoned.rest
  dsimp only at trace
  rw [Deed.after_trace, added, ← List.append_assoc, ← List.append_assoc, ← List.append_assoc]
    at trace
  rw [Session.since_eq trace]
  exact ⟨by simp [Deed.events], leaving.quits abandoned.said⟩

/-- **Quitting.** A run ends as quit exactly if the user answered a confirmation by quitting, and
exactly then its results say so. The turn in which this happens is the last one. After the answer
nothing happens but two log records: nothing but the ledger changes any more, in which the run is
aborted and at most the last instance skipped. The job of the turn is not done, and the results of
the earlier ones are as they were when it took its turn. -/
theorem quitting_is_final (workflow : Mapping) (root : String) (s : Session) :
    (((execute workflow root).perform s).1 = .error .quit ↔
      ∃ event ∈ ((execute workflow root).perform s).2.since s, event.quits = true) ∧
    (((execute workflow root).perform s).1 = .error .quit ↔
      ((execute workflow root).perform s).2.ledger.aborted = true) ∧
    (((execute workflow root).perform s).1 = .error .quit →
      ∃ before turn q u, Account workflow (Path.tidy root) s (before ++ [turn])
          ((execute workflow root).perform s).2 ∧
        turn.Abandoned q s u ((execute workflow root).perform s).2 ∧
        ((execute workflow root).perform s).2.ledger.completed = before.map (·.name) ∧
        Job.isDone (before.map (·.name)) turn.name = false) := by
  obtain ⟨start, turns, ended, last, opened, turned, closing⟩ := closing_of_execute workflow root s
  generalize (execute workflow root).perform s = outcome at closing ⊢
  obtain ⟨result, t⟩ := outcome
  dsimp only at closing ⊢
  rcases turned.stayed with ⟨other, stayed⟩ | ⟨before, turn, rfl, taken, rfl, fails, rfl, stayed⟩
  · obtain ⟨goes, closed, kept⟩ := closing.goes other
    have unaborted : t.ledger.aborted = false := by
      obtain ⟨name, fresh⟩ := opened.ledger
      rw [kept, turned.aborted_eq, fresh]
    obtain ⟨new, added, unquit⟩ := (opened.stayed.trans stayed).trans closed
    refine ⟨⟨fun quits => absurd quits goes, ?_⟩, ⟨fun quits => absurd quits goes, ?_⟩,
      fun quits => absurd quits goes⟩
    · rintro ⟨event, member, quits⟩
      rw [Session.since_eq added] at member
      rw [unquit event member] at quits
      cases quits
    · intro aborted
      rw [unaborted] at aborted
      cases aborted
  · cases closing with
    | failed other => exact absurd rfl other
    | quit =>
      obtain ⟨q, u, abandoned⟩ := taken.abandoned fails (opened.stayed.trans stayed)
      have account : Account workflow (Path.tidy root) s (before ++ [turn])
          (aborted turn.finish) := ⟨start, _, _, opened, turned, Closing.quit.written⟩
      refine ⟨⟨fun _ => ⟨_, abandoned.mem⟩, fun _ => rfl⟩, ⟨fun _ => rfl, fun _ => rfl⟩,
        fun _ => ⟨before, turn, q, u, account, abandoned, ?_, ?_⟩⟩
      · have done : (aborted turn.finish).ledger.completed = turn.finish.ledger.completed := by
          rw [aborted, Deed.after_log]
        rw [done, turn.finish_completed, account.completed]
      · have fresh := taken.fresh
        rwa [account.completed] at fresh

end Run
end Rehearsal
