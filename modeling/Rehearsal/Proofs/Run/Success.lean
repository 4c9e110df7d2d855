import Rehearsal.Proofs.Job.Success
import Rehearsal.Proofs.Run.Consent

/-! A command that fails is recorded: its step and the instance of its job are failed at the end of
the run. The exception is a run that the user quits when asked how to go on after the failure; then
the step is left as it was when it began.

The results of a run are those of the instances that it ran, one after the other. An instance that
is recorded as a success has finished, except that the user can quit inside it:
`success_means_finished`. -/

namespace Rehearsal

/-! ### Failures -/

namespace StepRun

open Step

variable {workflow jobs : Mapping} {r : StepRun}

/-- That a performance executed a command that came back with an exit code other than zero. -/
structure CommandFailed (r : StepRun) : Prop where
  command : IsCommand r.step
  executed : ∃ event ∈ r.finish.since r.start, event.isExec = true
  failed : (r.start.reports.headD {}).succeeded = false

/-- That a ledger has the step of a performance with a status. -/
def Recorded (r : StepRun) (status : Status) (l : Ledger) : Prop :=
  ∃ entry started, l.jobs[r.earlier.length]? = some entry ∧ entry.name = r.entry.name ∧
    Job.startedStep r.step r.index = .ok started ∧
    entry.steps[r.index]? = some { started with status } ∧
    (status = .failed → entry.status = .failed)

theorem Recorded.keep {status : Status} {l later : Ledger} (recorded : r.Recorded status l)
    (keeps : l.Keeps later) : r.Recorded status later := by
  obtain ⟨entry, started, found, named, ready, stated, fails⟩ := recorded
  obtain ⟨after, found, names, stated, failed⟩ := keeps _ _ entry _ found stated
  exact ⟨after, started, found, names.trans named, ready, stated, failed ∘ fails⟩

theorem Recorded.unique {status other : Status} {l : Ledger} (first : r.Recorded status l)
    (second : r.Recorded other l) : status = other := by
  obtain ⟨entry, started, found, -, ready, stated, -⟩ := first
  obtain ⟨entry', started', found', -, ready', stated', -⟩ := second
  rw [found] at found'
  cases found'
  rw [stated] at stated'
  exact congrArg (·.status) (Option.some.inj stated')

theorem Ran.keeps (ran : r.Ran workflow jobs) : r.start.ledger.Keeps r.finish.ledger := by
  rcases ran.cases with ⟨fault, -, same⟩ | ⟨started, result, u, -, -, -, finish⟩
  · rw [same]
    exact .refl _
  · exact Ledger.keeps_note ran.placed _ (by rw [finish])

theorem Ran.recorded (ran : r.Ran workflow jobs) (failed : r.CommandFailed) :
    r.Recorded .failed r.finish.ledger ∧ ¬Quits (r.finish.since r.start) ∨
      r.Recorded .skipped r.finish.ledger ∧ Quits (r.finish.since r.start) := by
  obtain ⟨command, ⟨event, member, executed⟩, bad⟩ := failed
  rcases ran.cases with ⟨fault, -, same⟩ | ⟨started, result, u, ready, performed, -, finish⟩
  · rw [Session.since_eq (show r.finish.trace = [] ++ r.start.trace by rw [same]; rfl)] at member
    cases member
  obtain ⟨new, told⟩ := (course_of_run command performed).told
  have added : r.finish.trace = new ++ r.start.trace := by rw [finish]; exact told.trace
  rw [Session.since_eq added] at member ⊢
  have recorded : r.Recorded (Job.noted result) r.finish.ledger := by
    refine ⟨r.entry.note { started with status := Job.noted result }, started, ?_, rfl, ready, ?_,
      fun fails => if_pos fails⟩
    · rw [finish]
      exact List.getElem?_concat_length
    · rw [← ran.counted]
      exact List.getElem?_concat_length
  rcases told.failed ⟨event, member, executed⟩ bad with ⟨rfl, quits⟩ | ⟨⟨halts, rfl⟩, stays⟩
  · exact .inr ⟨recorded, quits⟩
  · exact .inl ⟨recorded, stays⟩

end StepRun

theorem History.keeps {workflow jobs : Mapping} {s t : Session} {runs : List StepRun}
    (history : History workflow jobs s runs t) : s.ledger.Keeps t.ledger := by
  induction history with
  | nil s => exact .refl _
  | quiet first rest ih => exact first.keeps.trans ih
  | step ran rest ih => exact ran.keeps.trans ih

namespace Run

/-- **Failures.** For each command of a step that a run executed and that came back with an exit
code other than zero, the results of the run have the step and its instance as failed exactly if the
user did not quit when asked whether to go on after the failure. -/
theorem failed_commands_are_recorded (workflow : Mapping) (root : String) (s : Session) :
    ∃ start runs, Opened s start ∧
      History workflow (statedJobs workflow) start runs ((execute workflow root).perform s).2 ∧
      ∀ r ∈ runs, r.CommandFailed →
        (r.Recorded .failed ((execute workflow root).perform s).2.ledger ↔
          ¬Step.Quits (r.finish.since r.start)) := by
  obtain ⟨start, runs, opened, history, -⟩ := history_of_execute workflow root s
  refine ⟨start, runs, opened, history, ?_⟩
  intro r member failed
  obtain ⟨before, after, -, -, ran, later⟩ := history.split member
  rcases ran.recorded failed with ⟨recorded, stays⟩ | ⟨recorded, quits⟩
  · exact ⟨fun _ => stays, fun _ => recorded.keep later.keeps⟩
  · constructor
    · intro other
      have same := other.unique (recorded.keep later.keeps)
      cases same
    · exact fun stays => absurd quits stays

def oneCommand : Mapping :=
  [(.str "on", .str "push"), (.str "jobs", .map [(.str "a", .map [(.str "runs-on", .str "x"),
    (.str "steps", .list [.map [(.str "run", .str "false")]])])])]

/-- A session in which the first command is confirmed and fails, whereupon the user quits. -/
def quitting : Session where
  policy := { confirmJobs := false }
  answers := { confirms := ["y", "q"] }
  reports := [{ exit := 1 }]

/-- A failed command is lost when the user quits after it. -/
theorem failure_lost_by_quitting :
    let t := ((execute oneCommand "/").perform quitting).2
    (∃ event ∈ t.trace, event.isExec = true) ∧ (quitting.reports.headD {}).succeeded = false ∧
      t.ledger.aborted = true ∧
      ∀ ran ∈ t.ledger.jobs, ran.status ≠ .failed ∧ ∀ step ∈ ran.steps, step.status ≠ .failed := by
  decide +kernel

end Run

/-! ### Successes -/

/-- Instances of a job that ran one after the other. A fault ends them. -/
inductive Row (workflow jobs : Mapping) :
    Session → List InstanceRun → Except Fault Unit → Session → Prop where
  | none {s t : Session} (result : Except Fault Unit) (apart : Reaches Deed.Inquires s t) :
      Row workflow jobs s [] result t
  | failed {s : Session} {r : InstanceRun} {fault : Fault} (apart : Reaches Deed.Inquires s r.start)
      (ran : r.Ran workflow jobs) (fails : r.result = .error fault) :
      Row workflow jobs s [r] (.error fault) r.finish
  | next {s u : Session} {r : InstanceRun} {runs : List InstanceRun} {result : Except Fault Unit}
      (apart : Reaches Deed.Inquires s r.start) (ran : r.Ran workflow jobs)
      (ended : r.result = .ok ())
      (rest : Row workflow jobs r.finish runs result u) : Row workflow jobs s (r :: runs) result u

theorem Row.after {workflow jobs : Mapping} {s t u : Session} {runs : List InstanceRun}
    {result : Except Fault Unit} (before : Reaches Deed.Inquires s t)
    (row : Row workflow jobs t runs result u) :
    Row workflow jobs s runs result u := by
  cases row with
  | none result apart => exact .none result (before.trans apart)
  | failed apart ran fails => exact .failed (before.trans apart) ran fails
  | next apart ran ended rest => exact .next (before.trans apart) ran ended rest

theorem Row.split {workflow jobs : Mapping} {s t : Session} {before after : List InstanceRun}
    {r : InstanceRun} {result : Except Fault Unit}
    (row : Row workflow jobs s (before ++ r :: after) result t) :
    Row workflow jobs s before (.ok ()) r.start := by
  induction before generalizing s with
  | nil =>
    cases row with
    | failed apart | next apart => exact .none _ apart
  | cons first before ih =>
    rw [List.cons_append] at row
    generalize same : before ++ r :: after = others at row
    cases row with
    | failed => simp at same
    | next apart ran ended rest =>
      subst same
      exact .next apart ran ended (ih rest)

/-- Instances that ran one after the other, with nothing in between that touches the results of
instances. A fault ends them. -/
inductive Instances (workflow jobs : Mapping) :
    Session → List InstanceRun → Except Fault Unit → Session → Prop where
  | none {s t : Session} (result : Except Fault Unit) (same : t.ledger.jobs = s.ledger.jobs) :
      Instances workflow jobs s [] result t
  | apart {s t u : Session} {runs : List InstanceRun} {result : Except Fault Unit}
      (same : t.ledger.jobs = s.ledger.jobs) (rest : Instances workflow jobs t runs result u) :
      Instances workflow jobs s runs result u
  | failed {r : InstanceRun} {fault : Fault} {t : Session} (ran : r.Ran workflow jobs)
      (fate : r.Fate) (fails : r.result = .error fault)
      (same : t.ledger.jobs = r.finish.ledger.jobs) :
      Instances workflow jobs r.start [r] (.error fault) t
  | next {r : InstanceRun} {runs : List InstanceRun} {result : Except Fault Unit} {u : Session}
      (ran : r.Ran workflow jobs) (fate : r.Fate) (ended : r.result = .ok ())
      (rest : Instances workflow jobs r.finish runs result u) :
      Instances workflow jobs r.start (r :: runs) result u

namespace Instances

variable {workflow jobs : Mapping} {s t u : Session} {runs more : List InstanceRun}
  {result : Except Fault Unit}

theorem append (first : Instances workflow jobs s runs (.ok ()) t)
    (rest : Instances workflow jobs t more result u) :
    Instances workflow jobs s (runs ++ more) result u := by
  generalize ok : (.ok () : Except Fault Unit) = ended at first
  induction first with
  | none ended same => exact .apart same rest
  | apart same _ ih => exact .apart same (ih rest ok)
  | failed => cases ok
  | next ran fate ended _ ih => exact .next ran fate ended (ih rest ok)

theorem before (first : Instances workflow jobs s runs result t)
    (same : u.ledger.jobs = t.ledger.jobs) : Instances workflow jobs s runs result u := by
  induction first with
  | none ended kept => exact .none ended (same.trans kept)
  | apart kept _ ih => exact .apart kept (ih same)
  | failed ran fate fails kept => exact .failed ran fate fails (same.trans kept)
  | next ran fate ended _ ih => exact .next ran fate ended (ih same)

theorem ledger (ran : Instances workflow jobs s runs result t) :
    t.ledger.jobs = s.ledger.jobs ++ runs.map (·.entry) := by
  induction ran with
  | none ended same => rw [same, List.map_nil, List.append_nil]
  | apart same _ ih => rw [ih, same]
  | failed own fate fails same => rw [same, own.placed, List.map_singleton]
  | next own fate ended _ ih =>
    rw [ih, own.placed, List.append_assoc]
    rfl

theorem each (ran : Instances workflow jobs s runs result t) :
    ∀ r ∈ runs, r.Ran workflow jobs ∧ r.Fate ∧
      (r.result = .ok () ∨ r.result = result ∧ runs.getLast? = some r) := by
  induction ran with
  | none => simp
  | apart same _ ih => exact ih
  | failed own fate fails => simpa using ⟨own, fate, .inr fails⟩
  | @next own runs _ _ ran fate ended _ ih =>
    rw [List.forall_mem_cons]
    refine ⟨⟨ran, fate, .inl ended⟩, fun r member => ?_⟩
    obtain ⟨ran, fate, how⟩ := ih r member
    refine ⟨ran, fate, how.imp_right fun ⟨same, last⟩ => ⟨same, ?_⟩⟩
    rw [List.getLast?_cons, last]
    rfl

end Instances

theorem InstanceRun.Ran.fate {workflow jobs : Mapping} {r : InstanceRun}
    (ran : r.Ran workflow jobs) : r.Fate := by
  rcases Job.fated_of_runInstance ran.ran with ⟨u, -, same⟩ | ⟨entry, placed, fate⟩
  · have placed := ran.placed
    rw [same] at placed
    simp at placed
  · have same : r.entry = entry := ran.entry_eq placed
    rwa [← same] at fate

theorem Row.instances {workflow jobs : Mapping} {s t : Session} {runs : List InstanceRun}
    {result : Except Fault Unit} (row : Row workflow jobs s runs result t) :
    Instances workflow jobs s runs result t := by
  have same {u v : Session} (apart : Reaches Deed.Inquires u v) : v.ledger.jobs = u.ledger.jobs :=
    congrArg Ledger.jobs (Aside.ledger (apart.mono Deed.Inquires.aside))
  induction row with
  | none result apart => exact .none result (same apart)
  | failed apart ran fails => exact .apart (same apart) (.failed ran ran.fate fails rfl)
  | next apart ran ended rest ih => exact .apart (same apart) (.next ran ran.fate ended ih)

namespace Job

open Play
open Step (Site)

variable {workflow jobs : Mapping} {site : Site} {definition : Mapping} {s t : Session}
  {result : Except Fault Unit}

/-- That instances are those of a site for the first of these bindings, or for all of them if
nothing went wrong. -/
structure Follows (site : Site) (definition : Mapping) (bindings : List Mapping)
    (result : Except Fault Unit) (runs : List InstanceRun) : Prop where
  own : ∀ r ∈ runs, r.site = { site with matrix := r.site.matrix } ∧ r.definition = definition
  first : runs.map (·.site.matrix) <+: bindings
  whole : result = .ok () → runs.map (·.site.matrix) = bindings

theorem Follows.stopped (fault : Fault) (bindings : List Mapping) :
    Follows site definition bindings (.error fault) [] :=
  ⟨List.forall_mem_nil _, List.nil_prefix, nofun⟩

theorem Follows.cons {r : InstanceRun} {rest : List Mapping} {more : List InstanceRun}
    (own : r.site = { site with matrix := r.site.matrix }) (same : r.definition = definition)
    (later : Follows site definition rest result more) :
    Follows site definition (r.site.matrix :: rest) result (r :: more) where
  own := List.forall_mem_cons.mpr ⟨⟨own, same⟩, later.own⟩
  first := (List.prefix_cons_inj _).mpr later.first
  whole ok := congrArg (r.site.matrix :: ·) (later.whole ok)

theorem row_of_runInstances {count number : Nat} {bindings : List Mapping}
    (within : site.workflow = workflow) (stated : Stated jobs site definition)
    (performed : (runInstances site definition count bindings number).perform s = (result, t)) :
    ∃ runs, Row workflow jobs s runs result t ∧ Follows site definition bindings result runs := by
  induction bindings generalizing number s with
  | nil =>
    cases performed
    exact ⟨[], .none _ (.refl _), List.forall_mem_nil _, List.nil_prefix, fun _ => rfl⟩
  | cons own rest ih =>
    unfold runInstances at performed
    extract_lets ran at performed
    have runs {u : Session} (performed : (ran ()).perform u = (result, t)) :
        ∃ runs, Row workflow jobs u runs result t ∧
          Follows site definition (own :: rest) result runs := by
      let bound : Site := { site with matrix := own }
      rcases perform_bind_cases performed with ⟨fault, failed, rfl⟩ | ⟨_, v, first, further⟩
      · rcases fated_of_runInstance failed with ⟨_, -, rfl⟩ | ⟨entry, placed, -⟩
        · exact ⟨[], .none _ (.refl _), .stopped ..⟩
        · let r : InstanceRun := ⟨bound, definition, u, entry, .error fault, t⟩
          have ran : r.Ran workflow jobs := ⟨failed, within, stated, placed⟩
          exact ⟨[r], .failed (.refl u) ran rfl, .cons (r := r) rfl rfl (.stopped fault rest)⟩
      · rcases fated_of_runInstance first with ⟨_, same, -⟩ | ⟨entry, placed, -⟩
        · cases same
        · let r : InstanceRun := ⟨bound, definition, u, entry, .ok (), v⟩
          have ran : r.Ran workflow jobs := ⟨first, within, stated, placed⟩
          obtain ⟨more, later, follows⟩ := ih further
          exact ⟨r :: more, .next (.refl u) ran rfl later, .cons (r := r) rfl rfl follows⟩
    split at performed
    · rcases perform_bind_cases performed with ⟨fault, failed, -⟩ | ⟨_, u, spoken, performed⟩
      · cases (Deed.perform_info_eq_after ..).symm.trans failed
      obtain ⟨rest, row, follows⟩ := runs performed
      exact ⟨rest, row.after (.of_does (info_consults _).inquires spoken), follows⟩
    · exact runs performed

/-- The bindings of the instances of a job, as they are when it takes its turn. -/
def expansion (workflow : Mapping) (name : Scalar) (job : Value) (s : Session) :
    Except Fault (List Mapping) :=
  ((Matrix.expand ⟨workflow, name, []⟩ (matrix (job.mapping?.getD []))).perform s).1

theorem row_of_run {root : String} {name : Scalar} {job : Value} (stated : (name, job) ∈ jobs)
    (performed : (run workflow root name job).perform s = (result, t)) :
    ∃ runs, Row workflow jobs s runs result t ∧
      (result = .ok () → ∃ bindings, expansion workflow name job s = .ok bindings) ∧
      Follows ⟨workflow, root, name, .map (job.mapping?.getD []), [], []⟩ (job.mapping?.getD [])
        ((expansion workflow name job s).toOption.getD []) result runs := by
  unfold run at performed
  rcases perform_bind_cases performed with ⟨fault, failed, rfl⟩ | ⟨bindings, u, found, further⟩
  · exact ⟨[], .none _ (.of_does (Matrix.expand_inquires ..) failed), nofun, .stopped ..⟩
  · have expanded : expansion workflow name job s = .ok bindings := congrArg Prod.fst found
    obtain ⟨runs, row, follows⟩ := row_of_runInstances rfl ⟨job, stated, rfl, rfl⟩ further
    rw [expanded]
    exact ⟨runs, row.after (.of_does (Matrix.expand_inquires ..) found), fun _ => ⟨bindings, rfl⟩,
      follows⟩

theorem instances_of_run {root : String} {name : Scalar} {job : Value} (stated : (name, job) ∈ jobs)
    (performed : (run workflow root name job).perform s = (result, t)) :
    ∃ runs, Instances workflow jobs s runs result t := by
  obtain ⟨runs, row, -⟩ := row_of_run stated performed
  exact ⟨runs, row.instances⟩

end Job

namespace Run

open Play

variable {workflow jobs : Mapping} {root : String} {s t u : Session} {result : Except Fault Unit}

theorem Turns.instances {turns : List Turn} (turned : Turns workflow root jobs s turns result u) :
    ∃ runs, Instances workflow jobs s runs result u := by
  induction turned with
  | none s => exact ⟨[], .none _ rfl⟩
  | unclear => exact ⟨[], .none _ rfl⟩
  | failed taken failed =>
    obtain ⟨runs, ran⟩ := Job.instances_of_run taken.stated taken.ran
    exact ⟨runs, failed ▸ ran⟩
  | @next t _ _ _ taken ended rest ih =>
    obtain ⟨runs, ran⟩ := Job.instances_of_run taken.stated taken.ran
    obtain ⟨more, later⟩ := ih
    have noted : t.noted.ledger.jobs = t.finish.ledger.jobs := rfl
    rw [ended] at ran
    exact ⟨runs ++ more, ran.append (.apart noted later)⟩

theorem Written.results (written : Written s u) : u.ledger.jobs = s.ledger.jobs := by
  obtain ⟨records, logs, same⟩ := written
  rw [same]

theorem Rounds.instances {rounds : List (List Turn)}
    (run : Rounds workflow root jobs s rounds result u) :
    ∃ runs, Instances workflow jobs s runs result u := by
  induction run with
  | done => exact ⟨[], .none _ rfl⟩
  | failed left passed turned => exact turned.instances
  | stuck left passed waits reported =>
    exact ⟨[], .none _ (written_of_reportStuck reported).results⟩
  | next left passed turned some rest ih =>
    obtain ⟨runs, ran⟩ := turned.instances
    obtain ⟨more, later⟩ := ih
    exact ⟨runs ++ more, ran.append later⟩

theorem instances_of_execute (workflow : Mapping) (root : String) (s : Session) :
    ∃ start runs, start.ledger.jobs = [] ∧ Instances workflow (statedJobs workflow) start runs
      ((execute workflow root).perform s).1 ((execute workflow root).perform s).2 := by
  obtain ⟨start, opened, outcome⟩ := perform_execute workflow root s
  have fresh : start.ledger.jobs = [] := by
    obtain ⟨name, same⟩ := opened.ledger
    rw [same]
  rcases outcome with ⟨fault, t, performed, written⟩ | run
  · rw [performed]
    exact ⟨start, [], fresh, .none _ written.results⟩
  · obtain ⟨jobs, ended, u, t, mapped, passed, performed, written, -⟩ := run
    obtain ⟨rounds, run⟩ := rounds_of_passesFrom start passed
    obtain ⟨runs, ran⟩ := run.instances
    have same : statedJobs workflow = jobs := by
      rw [statedJobs, mapped]
      rfl
    rw [performed, same]
    exact ⟨start, runs, fresh, ran.before written.results⟩

/-- **Success.** The results of a run are those of its instances, in their order. An instance that
came to its end is recorded as a success exactly if it performed all of its steps, none of them
failed and it recorded its outputs. Only the last instance can end with a fault, which is then that
of the run. If the user quit when asked about this instance, it is skipped; else it is a success
exactly if none of the steps that it began is failed. -/
theorem success_means_finished (workflow : Mapping) (root : String) (s : Session) :
    ∃ runs : List InstanceRun,
      ((execute workflow root).perform s).2.ledger.jobs = runs.map (·.entry) ∧
      ∀ r ∈ runs, r.Ran workflow (statedJobs workflow) ∧
        (r.result = .ok () → (r.entry.status = .success ↔ r.Finished)) ∧
        ∀ fault, r.result = .error fault →
          runs.getLast? = some r ∧ ((execute workflow root).perform s).1 = .error fault ∧
            (r.Refused ∨
              (r.entry.status = .success ↔ ∀ step ∈ r.entry.steps, step.status ≠ .failed)) := by
  obtain ⟨start, runs, fresh, ran⟩ := instances_of_execute workflow root s
  refine ⟨runs, by rw [ran.ledger, fresh, List.nil_append], fun r member => ?_⟩
  obtain ⟨own, fate, how⟩ := ran.each r member
  refine ⟨own, fun ended => fate.success_iff ended own.placed, fun fault fails => ?_⟩
  rcases how with ended | ⟨same, last⟩
  · rw [fails] at ended
    cases ended
  · exact ⟨last, same ▸ fails, fate.of_error fails⟩

/-- An instance is a success although the user quit inside it, before its only command. -/
theorem success_left_by_quitting :
    let t := (execute oneCommand "/").perform { quitting with answers := { confirms := ["q"] } }
    t.2.ledger.aborted = true ∧ (∀ event ∈ t.2.trace, event.isExec = false) ∧
      ∃ ran ∈ t.2.ledger.jobs, ran.status = .success ∧
        ∀ step ∈ ran.steps, step.status = .skipped := by
  decide +kernel

end Run
end Rehearsal
