import Rehearsal.Proofs.Job.Opening
import Rehearsal.Proofs.Play.Yields

/-! An instance begins as a success, and only some of the ways to leave it change that. `Fate` lists
the ways, and `fated_of_runInstance` says that there is no other. -/

namespace Rehearsal

namespace JobResult

def notes (steps : List StepResult) (j : JobResult) : JobResult :=
  steps.foldl (fun j step => j.note step) j

variable {j : JobResult} {steps : List StepResult}

theorem notes_cons (step : StepResult) :
    j.notes (step :: steps) = (j.note step).notes steps := rfl

theorem steps_notes : (j.notes steps).steps = j.steps ++ steps := by
  induction steps generalizing j with
  | nil => exact (List.append_nil _).symm
  | cons step rest ih =>
    rw [notes_cons, ih]
    simp [note]

theorem name_notes : (j.notes steps).name = j.name := by
  induction steps generalizing j with
  | nil => rfl
  | cons step rest ih => exact ih

theorem status_notes :
    (j.notes steps).status =
      if ∃ step ∈ steps, step.status = .failed then .failed else j.status := by
  induction steps generalizing j with
  | nil => simp [notes]
  | cons step rest ih =>
    rw [notes_cons, ih]
    by_cases failed : step.status = .failed <;> simp [note, failed]

theorem status_notes_eq_success_iff : (j.notes steps).status = .success ↔
    j.status = .success ∧ ∀ step ∈ steps, step.status ≠ .failed := by
  rw [status_notes]
  by_cases failed : ∃ step ∈ steps, step.status = .failed
  · obtain ⟨step, member, same⟩ := failed
    rw [if_pos ⟨step, member, same⟩]
    exact ⟨nofun, fun unfailed => absurd same (unfailed.2 step member)⟩
  · rw [if_neg failed]
    exact ⟨fun success => ⟨success, fun step member same => failed ⟨step, member, same⟩⟩, And.left⟩

end JobResult

/-! ### Steps that end their job -/

namespace Step

def Outcome.FailsToHalt (o : Outcome) : Prop := o.haltsJob = true → o.status = .failed

abbrev Comes (play : Play Outcome) : Prop :=
  Yields (fun _ => True) (fun _ => True) Outcome.FailsToHalt play

end Step

theorem Yields.any {α : Type} (play : Play α) :
    Yields (fun _ => True) (fun _ => True) (fun _ => True) play := by
  refine ⟨fun s _ => ⟨trivial, ?_⟩⟩
  cases (play.perform s).1 <;> trivial

namespace Step

variable {α : Type}

theorem Comes.last {play : Play α} {next : α → Play Outcome} (rest : ∀ a, Comes (next a)) :
    Comes (play >>= next) := .bind (.any play) fun a _ => rest a

theorem Comes.goesOn (status : Status) : Comes (pure ⟨status, false⟩) :=
  .pure fun halts => by cases halts

theorem finish_comes (site : Site) (stepId : String) (report : Report) :
    Comes (finish site stepId report) := by
  refine .last fun _ => .last fun _ => ?_
  extract_lets ended
  have ends (u : PUnit) : Comes (ended u) := by
    dsimp only [ended]
    split
    · exact .last fun _ => .goesOn _
    · exact .last fun _ => .last fun _ => .pure fun _ => rfl
  split
  · exact .last ends
  · exact ends ()

theorem runCommand_comes (site : Site) (step command : Value) (stepId directory : String) :
    Comes (runCommand site step command stepId directory) := by
  refine .last fun text => .last fun s => ?_
  split
  · exact .last fun _ => .goesOn _
  · refine .last fun _ => .last fun _ => .last fun allowed => ?_
    split
    · exact .last fun _ => .last fun _ => finish_comes ..
    · exact .last fun _ => .goesOn _

theorem runAction_comes (site : Site) (step action : Value) (stepId directory : String) :
    Comes (runAction site step action stepId directory) := by
  refine .last fun action => .last fun _ => ?_
  split
  · exact .last fun _ => .goesOn _
  · split
    · exact .last fun _ => .goesOn _
    · refine .last fun found => ?_
      dsimp only
      split
      · exact .last fun _ => .goesOn _
      · exact .last fun _ => .goesOn _

theorem run_comes (site : Site) (step : Value) (index : Nat) : Comes (run site step index) := by
  refine .last fun name => .last fun stepId => .last fun _ => .last fun condition =>
    .last fun holds => ?_
  split
  · refine .last fun directory => .last fun command => .last fun action => ?_
    dsimp only
    split
    · split
      · exact runAction_comes ..
      · refine .last fun s => ?_
        split
        · exact .last fun _ => .goesOn _
        · exact .last fun _ => .last fun _ => .goesOn _
    · exact runCommand_comes ..
  · exact .last fun _ => .last fun _ => .goesOn _

theorem failed_of_haltsJob {site : Site} {step : Value} {index : Nat} {s t : Session}
    {outcome : Outcome} (ran : (run site step index).perform s = (.ok outcome, t))
    (halts : outcome.haltsJob = true) : outcome.status = .failed := by
  have comes := ((run_comes site step index).outcome s trivial).2
  rw [ran] at comes
  exact comes halts

end Step

/-! ### Rows of steps -/

namespace Job

open Play
open Step (Site)

variable {workflow jobs : Mapping} {site : Site} {definition : Mapping} {s t u : Session}
  {earlier : List JobResult} {entry : JobResult}

/-- That results are those of the first of these steps, which are counted from an index on. -/
def ResultsOf (items : List Value) (index : Nat) (results : List StepResult) : Prop :=
  ∀ k result, results[k]? = some result → ∃ item started, items[k]? = some item ∧
    startedStep item (index + k) = .ok started ∧ result = { started with status := result.status }

theorem ResultsOf.nil (items : List Value) (index : Nat) : ResultsOf items index [] :=
  fun _ _ found => nomatch found

theorem ResultsOf.cons {item : Value} {items : List Value} {index : Nat} {started : StepResult}
    {results : List StepResult} (ready : startedStep item index = .ok started) (status : Status)
    (rest : ResultsOf items (index + 1) results) :
    ResultsOf (item :: items) index ({ started with status } :: results) := by
  intro k result found
  cases k with
  | zero =>
    obtain rfl := Option.some.inj found
    exact ⟨item, started, rfl, ready, rfl⟩
  | succ k =>
    obtain ⟨other, own, stated, begun, same⟩ := rest k result found
    refine ⟨other, own, stated, ?_, same⟩
    rwa [Nat.add_assoc, Nat.add_comm 1] at begun

/-- A row of steps adds their results to the last instance, and it is left early only by a failed
step or a fault. -/
theorem results_of_runSteps {items : List Value} {index : Nat} {result : Except Fault Bool}
    (placed : s.ledger.jobs = earlier ++ [entry])
    (performed : (runSteps site items index).perform s = (result, t)) :
    ∃ results, t.ledger.jobs = earlier ++ [entry.notes results] ∧
      ResultsOf items index results ∧
      (result = .ok true → results.length = items.length) ∧
      (result = .ok false → ∃ step ∈ results, step.status = .failed) := by
  induction items generalizing index s entry with
  | nil =>
    cases performed
    exact ⟨[], placed, .nil _ _, fun _ => rfl, by simp⟩
  | cons item items ih =>
    unfold runSteps at performed
    rcases perform_bind_cases performed with ⟨fault, failed, rfl⟩ | ⟨goes, u, first, further⟩
    -- A fault before the step is started leaves no result of it.
    · rcases cases_of_runStep placed failed with
        ⟨_, -, rfl⟩ | ⟨started, ended, v, ready, -, -, rfl⟩
      · exact ⟨[], placed, .nil _ _, by simp, by simp⟩
      · exact ⟨[_], rfl, .cons ready _ (.nil _ _), by simp, by simp⟩
    · rcases cases_of_runStep placed first with
        ⟨_, same, -⟩ | ⟨started, ended, v, ready, ran, same, finish⟩
      · cases same
      have added : u.ledger.jobs = earlier ++ [entry.note { started with status := noted ended }] :=
        by rw [finish]
      cases ended with
      | error fault => cases same
      | ok outcome =>
        obtain rfl : goes = !outcome.haltsJob := Except.ok.inj same
        cases halts : outcome.haltsJob with
        | true =>
          rw [halts] at further
          cases further
          have failed := Step.failed_of_haltsJob ran halts
          refine ⟨[_], added, .cons ready _ (.nil _ _), by simp, fun _ => ?_⟩
          exact ⟨_, List.mem_singleton_self _, failed⟩
        | false =>
          rw [halts] at further
          obtain ⟨results, noted, own, all, stopped⟩ := ih added further
          refine ⟨_ :: results, noted, .cons ready _ own, fun ok => ?_, fun ok => ?_⟩
          · rw [List.length_cons, List.length_cons, all ok]
          · obtain ⟨step, member, failed⟩ := stopped ok
            exact ⟨step, List.mem_cons_of_mem _ member, failed⟩

end Job

/-! ### Instances -/

/-- One run of an instance, with the result that it has in the ledger. -/
structure InstanceRun where
  site : Step.Site
  definition : Mapping
  start : Session
  entry : JobResult
  result : Except Fault Unit
  finish : Session

namespace InstanceRun

open Play

variable {workflow jobs : Mapping} {r : InstanceRun}

/-- That a run is one of the running program: of an instance of one of these jobs, whose result is
then the last one of the ledger. -/
structure Ran (workflow jobs : Mapping) (r : InstanceRun) : Prop where
  ran : (Job.runInstance r.site r.definition).perform r.start = (r.result, r.finish)
  within : r.site.workflow = workflow
  stated : Job.Stated jobs r.site r.definition
  placed : r.finish.ledger.jobs = r.start.ledger.jobs ++ [r.entry]

theorem Ran.entry_eq {entry : JobResult} (ran : r.Ran workflow jobs)
    (placed : r.finish.ledger.jobs = r.start.ledger.jobs ++ [entry]) : r.entry = entry :=
  List.singleton_inj.mp (List.append_cancel_left (ran.placed.symm.trans placed))

/-- That an instance came through all of its steps and went on to record its outputs. -/
def Completed (r : InstanceRun) (items : List Value) : Prop :=
  ∃ (surroundings : Table String String) (name : Scalar) (title : String) (before u v : Session),
    before.ledger.jobs = r.start.ledger.jobs ++ [{ name := name }] ∧
    (Job.runSteps { r.site with jobEnvironment := surroundings } items 0).perform before =
      (.ok true, u) ∧
    (Job.recordOutputs r.site.scope r.definition).perform u = (.ok (), v) ∧
    r.finish = (Deed.log .info ("Job '" ++ title ++ "' completed")).after v

/-- That every step of an instance has a result and none of them failed, and that the outputs were
recorded thereafter. -/
structure Finished (r : InstanceRun) : Prop where
  steps : ∃ items, Job.steps r.definition = .ok items ∧ r.Completed items ∧
    r.entry.steps.length = items.length ∧ Job.ResultsOf items 0 r.entry.steps
  unfailed : ∀ step ∈ r.entry.steps, step.status ≠ .failed

/-- That the user quit when asked whether the instance is to run. -/
structure Refused (r : InstanceRun) : Prop where
  asked : ∃ title answer, .ask (Job.jobQuestion title) answer ∈ r.finish.since r.start ∧
    Confirmation.parse answer = .quit
  quits : r.result = .error .quit
  skipped : r.entry.status = .skipped
  unperformed : r.entry.steps = []

inductive Fate (r : InstanceRun) : Prop where
  | skipped (ended : r.result = .ok ()) (status : r.entry.status = .skipped)
  | refused (refused : r.Refused)
  | completed {items : List Value} (ended : r.result = .ok ())
      (stated : Job.steps r.definition = .ok items) (completed : r.Completed items)
  | stopped (ended : r.result = .ok ()) (status : r.entry.status = .failed)
  | broken {fault : Fault} (fails : r.result = .error fault)
      (tallied : r.entry.status = .success ↔ ∀ step ∈ r.entry.steps, step.status ≠ .failed)

theorem tallied (name : Scalar) (results : List StepResult) :
    (JobResult.notes results { name := name }).status = .success ↔
      ∀ step ∈ (JobResult.notes results { name := name }).steps, step.status ≠ .failed := by
  rw [JobResult.status_notes_eq_success_iff, JobResult.steps_notes]
  simp

theorem Completed.results {items : List Value} (completed : r.Completed items)
    (placed : r.finish.ledger.jobs = r.start.ledger.jobs ++ [r.entry]) :
    (r.entry.status = .success ↔ ∀ step ∈ r.entry.steps, step.status ≠ .failed) ∧
      r.entry.steps.length = items.length ∧ Job.ResultsOf items 0 r.entry.steps := by
  obtain ⟨surroundings, name, title, before, u, v, fresh, ran, recorded, finish⟩ := completed
  obtain ⟨results, added, own, all, -⟩ := Job.results_of_runSteps fresh ran
  have kept : r.finish.ledger.jobs = u.ledger.jobs := by
    rw [finish, (Aside.log ..).ledger, (Aside.of_does (Job.recordOutputs_aside ..) recorded).ledger]
  have same : r.entry = JobResult.notes results { name := name } := by
    rw [placed, added] at kept
    exact List.singleton_inj.mp (List.append_cancel_left kept)
  have steps : r.entry.steps = results := by rw [same, JobResult.steps_notes, List.nil_append]
  refine ⟨by rw [same]; exact tallied name results, ?_⟩
  rw [steps]
  exact ⟨all rfl, own⟩

theorem Fate.success_iff (fate : r.Fate) (ended : r.result = .ok ())
    (placed : r.finish.ledger.jobs = r.start.ledger.jobs ++ [r.entry]) :
    r.entry.status = .success ↔ r.Finished := by
  constructor
  · intro success
    cases fate with
    | completed _ stated completed =>
      obtain ⟨tallied, counted, own⟩ := completed.results placed
      exact ⟨⟨_, stated, completed, counted, own⟩, tallied.mp success⟩
    | skipped _ status => simp [status] at success
    | stopped _ status => simp [status] at success
    | refused refused => simp [refused.quits] at ended
    | broken fails => simp [fails] at ended
  · rintro ⟨⟨items, -, completed, -⟩, unfailed⟩
    exact (completed.results placed).1.mpr unfailed

theorem Fate.of_error (fate : r.Fate) {fault : Fault} (fails : r.result = .error fault) :
    r.Refused ∨ (r.entry.status = .success ↔ ∀ step ∈ r.entry.steps, step.status ≠ .failed) := by
  cases fate with
  | refused refused => exact .inl refused
  | broken _ tallied => exact .inr tallied
  | skipped ended => simp [ended] at fails
  | completed ended => simp [ended] at fails
  | stopped ended => simp [ended] at fails

end InstanceRun

namespace Job

open Play
open Step (Site)

variable {workflow jobs : Mapping} {site : Site} {definition : Mapping} {s t u : Session}
  {name : Scalar} {result : Except Fault Unit}

/-- That an instance has been started since a session, and none of its steps performed. -/
structure Begun (name : Scalar) (s u : Session) : Prop where
  fresh : u.ledger.jobs = s.ledger.jobs ++ [{ name := name }]
  trace : s.trace <:+ u.trace

theorem Begun.of_opened (opened : Opened name s t) : Begun name s t := by
  obtain ⟨new, added, -⟩ := opened.keeps.2.trace
  exact ⟨opened.placed, new, added.symm⟩

theorem Begun.aside (begun : Begun name s t) (rest : Aside t u) : Begun name s u := by
  obtain ⟨new, added, -⟩ := rest.trace
  refine ⟨by rw [rest.ledger, begun.fresh], ?_⟩
  rw [added]
  exact begun.trace.trans (List.suffix_append ..)

def Fated (site : Site) (definition : Mapping) (s : Session) (result : Except Fault Unit)
    (t : Session) : Prop :=
  ∃ entry, t.ledger.jobs = s.ledger.jobs ++ [entry] ∧
    InstanceRun.Fate ⟨site, definition, s, entry, result, t⟩

theorem Begun.broken {fault : Fault} (begun : Begun name s t) :
    Fated site definition s (.error fault) t :=
  ⟨_, begun.fresh, .broken rfl (InstanceRun.tallied name [])⟩

theorem Begun.skipped (begun : Begun name s t) :
    Fated site definition s (.ok ()) (Deed.skip.after t) :=
  ⟨_, congrArg Ledger.jobs (Ledger.updateLast_eq begun.fresh _), .skipped rfl rfl⟩

theorem Begun.refused {title : String} (begun : Begun name s u)
    (said : Step.reply (jobQuestion title) u = .quit)
    (rest : Aside ((Deed.ask (jobQuestion title)).after u) t) :
    Fated site definition s (.error .quit) (Deed.skip.after t) := by
  obtain ⟨earlier, before⟩ := begun.trace
  obtain ⟨later, added, -⟩ := rest.trace
  have asked : (Deed.skip.after t).trace =
      later ++ .ask (jobQuestion title) (answer (jobQuestion title) u) :: (earlier ++ s.trace) := by
    rw [before]
    exact added
  have fresh := (congrArg Ledger.jobs rest.ledger).trans begun.fresh
  refine ⟨_, congrArg Ledger.jobs (Ledger.updateLast_eq fresh _), .refused ⟨?_, rfl, rfl, rfl⟩⟩
  refine ⟨title, answer (jobQuestion title) u, ?_, said⟩
  have since := Session.since_eq (asked.trans (List.append_assoc later (_ :: earlier) _).symm)
  show _ ∈ (Deed.skip.after t).since s
  rw [since]
  exact List.mem_append_right _ List.mem_cons_self

theorem fated_of_perform {title : String} (begun : Begun name s u)
    (performed : (perform site definition title).perform u = (result, t)) :
    Fated site definition s result t := by
  unfold perform at performed
  rcases perform_bind_cases performed with ⟨fault, failed, rfl⟩ | ⟨surroundings, v, found, further⟩
  · exact (begun.aside (.of_inquires (environment_inquires ..) failed)).broken
  have begun := begun.aside (.of_inquires (environment_inquires ..) found)
  rcases perform_bind_cases further with ⟨fault, failed, rfl⟩ | ⟨items, w, stated, further⟩
  · exact (begun.aside (.of_inquires (.adopt _) failed)).broken
  obtain ⟨listed, rfl⟩ := Prod.mk.inj ((perform_adopt ..).symm.trans stated)
  rcases perform_bind_cases further with ⟨fault, failed, rfl⟩ | ⟨ended, w, ran, further⟩
  · obtain ⟨results, added, -⟩ := results_of_runSteps begun.fresh failed
    exact ⟨_, added, .broken rfl (InstanceRun.tallied name results)⟩
  obtain ⟨results, added, -, -, stopped⟩ := results_of_runSteps begun.fresh ran
  cases ended with
  | false =>
    obtain ⟨rfl, rfl⟩ := Prod.mk.inj ((Deed.perform_info_eq_after ..).symm.trans further)
    have kept := (Aside.log .info ("Stopping job '" ++ title ++ "'") w).ledger
    have failed := JobResult.status_notes (j := { name := name }).trans (if_pos (stopped rfl))
    exact ⟨_, (congrArg Ledger.jobs kept).trans added, .stopped rfl failed⟩
  | true =>
    rcases perform_bind_cases further with ⟨fault, failed, rfl⟩ | ⟨_, x, recorded, further⟩
    · have kept := (Aside.of_does (recordOutputs_aside ..) failed).ledger
      exact ⟨_, (congrArg Ledger.jobs kept).trans added,
        .broken rfl (InstanceRun.tallied name results)⟩
    · have kept := (Aside.of_does (recordOutputs_aside ..) recorded).ledger
      obtain ⟨rfl, rfl⟩ := Prod.mk.inj ((Deed.perform_info_eq_after ..).symm.trans further)
      have kept := (Aside.log .info ("Job '" ++ title ++ "' completed") x).ledger.trans kept
      refine ⟨_, (congrArg Ledger.jobs kept).trans added, .completed rfl listed ?_⟩
      exact ⟨surroundings, name, title, _, _, _, begun.fresh, ran, recorded, rfl⟩

theorem fated_of_runInstance
    (performed : (runInstance site definition).perform s = (result, t)) :
    (∃ u, result = .error (.unfit u) ∧ t = s) ∨ Fated site definition s result t := by
  cases opening_of_runInstance performed with
  | unnamed untold => exact .inl ⟨_, rfl, rfl⟩
  | broken named opened => exact .inr (Begun.of_opened opened).broken
  | skipped named opened => exact .inr (Begun.of_opened opened).skipped
  | refused named opened said left =>
    rw [left]
    exact .inr ((Begun.of_opened opened).refused said (.log ..))
  | performed named opened ran => exact .inr (fated_of_perform (Begun.of_opened opened) ran)

end Job
end Rehearsal
