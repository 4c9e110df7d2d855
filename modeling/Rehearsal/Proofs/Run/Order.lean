import Rehearsal.Proofs.Run.Turns

/-! A run is a row of turns between an opening and a closing that only write log records. The jobs
take their turns after the jobs that they need, and each of them at most once. -/

namespace Rehearsal

namespace Run

open Play

variable {workflow jobs : Mapping} {root : String} {s t u : Session} {result : Except Fault Unit}

/-! ### The opening -/

/-- That a session is ready for a run: its ledger is new, and but for the tool manager and log
records all else is as it was. -/
structure Opened (s u : Session) : Prop where
  ledger : ∃ name, u.ledger = { workflowName := name }
  rest : ∃ records toolchain, (∀ event ∈ records, ∃ message, event = .log .info message) ∧
    u = { s with
      ledger := u.ledger
      context := { s.context with toolchain }
      trace := records ++ s.trace }

theorem Opened.completed (opened : Opened s u) : u.ledger.completed = [] := by
  obtain ⟨name, same⟩ := opened.ledger
  rw [same]

theorem Opened.logging (opened : Opened s u) : u.logging = s.logging := by
  obtain ⟨records, toolchain, logs, same⟩ := opened.rest
  rw [same]

theorem opened_of_openLedger (performed : (openLedger workflow).perform s = (result, u)) :
    Opened s u := by
  have fresh (name : String) : Opened s { s with ledger := { workflowName := name } } :=
    ⟨⟨name, rfl⟩, [], s.context.toolchain, by simp, rfl⟩
  unfold openLedger at performed
  rw [perform_bind_ok (perform_modifyLedger _ s)] at performed
  rcases perform_fit_cases performed with ⟨u, -, -, rfl⟩ | ⟨name, -, named⟩
  · exact fresh "Workflow"
  · cases named
    exact fresh name

theorem Opened.log (opened : Opened s u) (message : String) :
    Opened s ((Deed.log .info message).after u) := by
  rw [Deed.after_log]
  obtain ⟨records, toolchain, logs, same⟩ := opened.rest
  refine ⟨opened.ledger, logged .info message u ++ records, toolchain, ?_, ?_⟩
  · intro event member
    exact (List.mem_append.mp member).elim eq_log_of_mem_logged (logs event)
  · rw [same]
    simp

theorem Opened.detect (opened : Opened s u) (toolchain : Option String) :
    Opened s { u with context := { u.context with toolchain } } := by
  obtain ⟨records, _, logs, same⟩ := opened.rest
  refine ⟨opened.ledger, records, toolchain, logs, ?_⟩
  rw [same]

theorem opened_of_detectToolchain (opened : Opened s u) :
    ∃ v, detectToolchain.perform u = (.ok (), v) ∧ Opened s v := by
  unfold detectToolchain
  rw [perform_get_bind]
  split
  · rw [perform_bind_ok (perform_modifyContext _ _)]
    have detected := opened.detect u.toolchain
    split
    · exact ⟨_, Deed.perform_log_eq_after .., detected.log ..⟩
    · exact ⟨_, Deed.perform_log_eq_after .., detected.log ..⟩
  · exact ⟨u, rfl, opened⟩

/-! ### The closing -/

/-- That nothing but log records lies between two sessions, and perhaps the mark of an aborted
run. -/
def Written (s u : Session) : Prop :=
  ∃ records, (∀ event ∈ records, ∃ level message, event = .log level message) ∧
    u = { s with
      ledger := { s.ledger with aborted := u.ledger.aborted }
      trace := records ++ s.trace }

theorem Written.refl (s : Session) : Written s s := ⟨[], by simp, rfl⟩

theorem Written.log (written : Written s u) (level : Level) (message : String) :
    Written s ((Deed.log level message).after u) := by
  rw [Deed.after_log]
  obtain ⟨records, logs, same⟩ := written
  refine ⟨logged level message u ++ records, ?_, ?_⟩
  · intro event member
    exact (List.mem_append.mp member).elim (fun own => ⟨level, eq_log_of_mem_logged own⟩)
      (logs event)
  · rw [same]
    simp

theorem Written.abort (written : Written s u) :
    Written s { u with ledger := { u.ledger with aborted := true } } := by
  obtain ⟨records, logs, same⟩ := written
  refine ⟨records, logs, ?_⟩
  rw [same]

theorem Written.trans (first : Written s t) (rest : Written t u) : Written s u := by
  obtain ⟨records, logs, same⟩ := first
  obtain ⟨more, others, sames⟩ := rest
  refine ⟨more ++ records, ?_, ?_⟩
  · intro event member
    exact (List.mem_append.mp member).elim (others event) (logs event)
  · rw [sames, same]
    simp

theorem Written.completed (written : Written s u) :
    u.ledger.completed = s.ledger.completed := by
  obtain ⟨records, logs, same⟩ := written
  rw [same]

theorem perform_reportStuck (jobs : Mapping) (s : Session) :
    (reportStuck jobs).perform s =
      match stringNames (Job.remaining jobs s.ledger.completed) with
      | .error fault => (.error fault, s)
      | .ok names => (.ok (), Deed.all
          [.log .warning (stuckText names),
            .log .warning "This might indicate a circular dependency or a missing job"] s) := by
  unfold reportStuck
  rw [perform_get_bind]
  dsimp only
  rw [perform_bind, perform_adopt]
  cases stringNames (Job.remaining jobs s.ledger.completed) with
  | error fault => rfl
  | ok names =>
    have first := Deed.perform_log_eq_after .warning (stuckText names) s
    exact (perform_bind_ok first).trans (Deed.perform_log_eq_after ..)

theorem written_of_reportStuck (performed : (reportStuck jobs).perform s = (result, u)) :
    Written s u := by
  rw [perform_reportStuck] at performed
  split at performed
  · cases performed
    exact .refl s
  · cases performed
    rw [Deed.all_cons, Deed.all_cons, Deed.all_nil]
    exact ((Written.refl s).log ..).log ..

theorem perform_stop (fault : Fault) (s : Session) :
    ∃ t, (stop fault).perform s = (.error fault, t) ∧ Written s t := by
  unfold stop
  dsimp only
  split
  · have said := (Written.refl s).log .info "Workflow execution stopped by user"
    refine ⟨_, ?_, said.abort⟩
    rw [info, perform_bind_ok (Deed.perform_log_eq_after ..),
      perform_bind_ok (perform_modifyLedger ..)]
    rfl
  · exact ⟨s, rfl, .refl s⟩

theorem Rounds.turns {rounds : List (List Turn)}
    (run : Rounds workflow root jobs s rounds result u) :
    ∃ ended last, Turns workflow root jobs s rounds.flatten ended last ∧ Written last u := by
  induction run with
  | done => exact ⟨_, _, .none _, .refl _⟩
  | @failed s u turns fault left passed turned =>
    exact ⟨.error fault, u, by rwa [List.flatten_singleton], .refl u⟩
  | stuck left passed waits reported => exact ⟨_, _, .none _, written_of_reportStuck reported⟩
  | next left passed turned some rest ih =>
    obtain ⟨ended, last, more, written⟩ := ih
    exact ⟨ended, last, turned.append more, written⟩

/-! ### The run -/

/-- The jobs of a workflow; none if it states no mapping of jobs. -/
def statedJobs (workflow : Mapping) : Mapping := (Run.jobs workflow).toOption.getD []

/-- What a run is made of: an opening, turns of jobs, and a closing. -/
def Account (workflow : Mapping) (root : String) (s : Session) (turns : List Turn)
    (t : Session) : Prop :=
  ∃ start ended last, Opened s start ∧
    Turns workflow root (statedJobs workflow) start turns ended last ∧ Written last t

theorem perform_runJobs (workflow : Mapping) (root : String) (s : Session) :
    (runJobs workflow root).perform s = match Run.jobs workflow with
      | .error fault => (.error fault, s)
      | .ok jobs => passesFrom workflow root jobs s := by
  unfold runJobs
  rw [perform_bind, perform_adopt]
  cases Run.jobs workflow <;> rfl

theorem perform_execute (workflow : Mapping) (root : String) (s : Session) :
    ∃ start, Opened s start ∧
      ((∃ fault t, (execute workflow root).perform s = (.error fault, t) ∧ Written start t) ∨
        ∃ jobs ended u t, Run.jobs workflow = .ok jobs ∧
          passesFrom workflow (Path.tidy root) jobs start = (ended, u) ∧
          (execute workflow root).perform s = (ended, t) ∧ Written u t ∧
          (ended = .ok () → t = u)) := by
  unfold execute
  cases opening : (openLedger workflow).perform s with
  | mk result first =>
    have opened := opened_of_openLedger opening
    rw [perform_bind, opening]
    cases result with
    | error fault => exact ⟨first, opened, .inl ⟨fault, first, rfl, .refl first⟩⟩
    | ok =>
      obtain ⟨start, detected, opened⟩ := opened_of_detectToolchain opened
      refine ⟨start, opened, ?_⟩
      dsimp only
      rw [perform_bind_ok detected, perform_tryCatch, perform_runJobs]
      cases mapped : Run.jobs workflow with
      | error fault =>
        obtain ⟨t, stops, written⟩ := perform_stop fault start
        exact .inl ⟨fault, t, stops, written⟩
      | ok jobs =>
        dsimp only
        cases passed : passesFrom workflow (Path.tidy root) jobs start with
        | mk ended u =>
          cases ended with
          | ok => exact .inr ⟨jobs, .ok (), u, u, rfl, passed, rfl, .refl u, fun _ => rfl⟩
          | error fault =>
            obtain ⟨t, stops, written⟩ := perform_stop fault u
            exact .inr ⟨jobs, .error fault, u, t, rfl, passed, stops, written, by simp⟩

theorem account_of_execute (workflow : Mapping) (root : String) (s : Session) :
    ∃ turns, Account workflow (Path.tidy root) s turns
      ((execute workflow root).perform s).2 := by
  obtain ⟨start, opened, outcome⟩ := perform_execute workflow root s
  rcases outcome with ⟨fault, t, performed, written⟩ | run
  · rw [performed]
    exact ⟨[], start, .ok (), start, opened, .none start, written⟩
  · obtain ⟨jobs, ended, u, t, mapped, passed, performed, written, -⟩ := run
    obtain ⟨rounds, run⟩ := rounds_of_passesFrom start passed
    obtain ⟨turned, last, turns, reported⟩ := run.turns
    rw [performed]
    have same : statedJobs workflow = jobs := by rw [statedJobs, mapped]; rfl
    rw [← same] at turns
    exact ⟨rounds.flatten, start, turned, last, opened, turns, reported.trans written⟩

theorem Account.orderly {turns : List Turn} (account : Account workflow root s turns t) :
    Orderly (statedJobs workflow) t.ledger.completed := by
  obtain ⟨start, ended, last, opened, turned, written⟩ := account
  rw [written.completed]
  refine turned.orderly ?_
  rw [opened.completed]
  exact .nil

theorem Account.completed {before after : List Turn} {turn : Turn}
    (account : Account workflow root s (before ++ turn :: after) t) :
    turn.start.ledger.completed = before.map (·.name) := by
  obtain ⟨start, ended, last, opened, turned, written⟩ := account
  rw [turned.split.1.completed, opened.completed, List.nil_append]

theorem Account.taken {before after : List Turn} {turn : Turn}
    (account : Account workflow root s (before ++ turn :: after) t) :
    turn.Taken workflow root (statedJobs workflow) := by
  obtain ⟨start, ended, last, opened, turned, written⟩ := account
  exact turned.split.2.1

theorem Account.fresh {before after : List Turn} {turn other : Turn}
    (account : Account workflow root s (before ++ turn :: after) t)
    (member : other ∈ turn :: after) : Job.isDone (before.map (·.name)) other.name = false := by
  obtain ⟨first, last, same⟩ := List.append_of_mem member
  rw [same, ← List.append_assoc] at account
  have fresh := account.taken.fresh
  rw [account.completed, List.map_append, isDone_eq_false] at fresh
  exact isDone_eq_false.mpr fun d earlier => fresh d (List.mem_append_left _ earlier)

/-- **Order of jobs.** The jobs that are done are distinct jobs of the workflow at the end of a run,
however it ends, and whenever a job takes its turn. The job is then not done while all that it needs
is, this does not change before the job is noted as done, and none of what it needs runs from then
on. -/
theorem jobs_run_after_their_needs (workflow : Mapping) (root : String) (s : Session) :
    ∃ turns, Account workflow (Path.tidy root) s turns ((execute workflow root).perform s).2 ∧
      Orderly (statedJobs workflow) ((execute workflow root).perform s).2.ledger.completed ∧
      ∀ before turn after, turns = before ++ turn :: after →
        Orderly (statedJobs workflow) (before.map (·.name)) ∧
        (∀ deeds, deeds <+: turn.deeds →
          (Deed.all deeds turn.start).ledger.completed = before.map (·.name)) ∧
        (turn.name, turn.job) ∈ statedJobs workflow ∧
        Job.isDone (before.map (·.name)) turn.name = false ∧
        ∃ needed, Job.needs turn.job = .ok needed ∧
          Job.isReady (before.map (·.name)) needed = true ∧
          ∀ name ∈ needed, ∀ other ∈ turn :: after, other.name ≠ .str name := by
  obtain ⟨turns, account⟩ := account_of_execute workflow root s
  refine ⟨turns, account, account.orderly, ?_⟩
  rintro before turn after rfl
  have taken := account.taken
  have done := account.completed
  obtain ⟨needed, readable, ready⟩ := taken.ready
  have fresh := taken.fresh
  rw [done] at ready fresh
  refine ⟨?_, ?_, taken.stated, fresh, needed, readable, ready, ?_⟩
  · obtain ⟨start, ended, last, opened, turned, written⟩ := account
    rw [← done]
    refine turned.split.1.orderly ?_
    rw [opened.completed]
    exact .nil
  · intro deeds part
    rw [Deed.all_completed, done]
  · intro name member other later same
    have unrun := account.fresh later
    rw [same] at unrun
    have run := List.all_eq_true.mp ready name member
    rw [run] at unrun
    cases unrun

end Run
end Rehearsal
