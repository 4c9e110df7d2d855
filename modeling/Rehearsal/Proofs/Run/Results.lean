import Rehearsal.Proofs.Job.Opening
import Rehearsal.Proofs.Run.Closing
import Rehearsal.Proofs.Run.Success

/-! However a run ends, its results are those of the jobs that came to their end, each with one
result for each of its instances, and of the first instances of the job that did not. What a single
result says follows from the way in which its instance was opened. -/

namespace Rehearsal

open Play

namespace Job

open Step (Site)

variable {site : Site} {definition : Mapping} {s t : Session} {earlier : List JobResult}
  {entry : JobResult} {result : Except Fault Unit}

theorem results_of_perform {title : String} (placed : s.ledger.jobs = earlier ++ [entry])
    (performed : (perform site definition title).perform s = (result, t)) :
    ∃ results, t.ledger.jobs = earlier ++ [entry.notes results] ∧
      ResultsOf (statedSteps definition) 0 results := by
  unfold perform at performed
  rcases perform_bind_cases performed with ⟨fault, failed, rfl⟩ | ⟨surroundings, u, found, further⟩
  · have aside := Aside.of_inquires (environment_inquires ..) failed
    exact ⟨[], (congrArg Ledger.jobs aside.ledger).trans placed, .nil _ _⟩
  have aside := Aside.of_inquires (environment_inquires ..) found
  have placed := (congrArg Ledger.jobs aside.ledger).trans placed
  rcases perform_bind_cases further with ⟨fault, failed, rfl⟩ | ⟨items, v, stated, further⟩
  · obtain ⟨-, rfl⟩ := Prod.mk.inj ((perform_adopt ..).symm.trans failed)
    exact ⟨[], placed, .nil _ _⟩
  obtain ⟨listed, rfl⟩ := Prod.mk.inj ((perform_adopt ..).symm.trans stated)
  have same : statedSteps definition = items := by rw [statedSteps, listed]; rfl
  rw [same]
  rcases perform_bind_cases further with ⟨fault, failed, rfl⟩ | ⟨ended, w, ran, further⟩
  · obtain ⟨results, added, own, -⟩ := results_of_runSteps placed failed
    exact ⟨results, added, own⟩
  obtain ⟨results, added, own, -⟩ := results_of_runSteps placed ran
  have kept : t.ledger = w.ledger := by
    split at further
    · have said : Does Deed.Aside (info ("Job '" ++ title ++ "' completed")) := .log trivial
      have does := Does.bind (recordOutputs_aside site.scope definition) fun _ => said
      exact (Aside.of_does does further).ledger
    · exact (Aside.of_does (.log trivial) further).ledger
  exact ⟨results, (congrArg Ledger.jobs kept).trans added, own⟩

end Job

namespace InstanceRun

variable {workflow jobs : Mapping} {r : InstanceRun}

/-- That the result of an instance says what became of it. -/
structure Faithful (r : InstanceRun) : Prop where
  named : Job.displayName r.site.job r.site.matrix = .ok r.entry.name
  steps : ∀ k result, r.entry.steps[k]? = some result → ∃ item,
    (Job.statedSteps r.definition)[k]? = some item ∧ Step.name item k = .ok result.name
  failed : r.entry.status = .failed ↔ ∃ step ∈ r.entry.steps, step.status = .failed
  skipped : r.entry.status = .skipped → r.entry.steps = [] ∧ Idle r.start r.finish

theorem Faithful.of_notes {name : Scalar} {results : List StepResult}
    (named : Job.displayName r.site.job r.site.matrix = .ok name)
    (own : Job.ResultsOf (Job.statedSteps r.definition) 0 results)
    (same : r.entry = JobResult.notes results { name := name }) : r.Faithful := by
  have steps : r.entry.steps = results := by rw [same, JobResult.steps_notes, List.nil_append]
  have status := congrArg JobResult.status same
  rw [JobResult.status_notes] at status
  refine ⟨?_, fun k result found => ?_, ?_, fun skipped => ?_⟩
  · rw [named, same, JobResult.name_notes]
  · rw [steps] at found
    obtain ⟨item, started, stated, ready, result_eq⟩ := own k result found
    rw [Nat.zero_add] at ready
    refine ⟨item, stated, ?_⟩
    rw [(Job.shape_of_startedStep ready).1, result_eq]
  · rw [status, steps]
    by_cases some : ∃ step ∈ results, step.status = .failed <;> simp [some]
  · rw [status] at skipped
    split at skipped <;> cases skipped

theorem Faithful.of_skip {name : Scalar}
    (named : Job.displayName r.site.job r.site.matrix = .ok name) (idle : Idle r.start r.finish)
    (same : r.entry = JobResult.setStatus .skipped { name := name }) : r.Faithful := by
  have fresh : r.entry.steps = [] := congrArg JobResult.steps same
  have status : r.entry.status = .skipped := congrArg JobResult.status same
  have called : r.entry.name = name := congrArg JobResult.name same
  refine ⟨by rw [called, named], ?_, ?_, fun _ => ⟨fresh, idle⟩⟩
  · simp [fresh]
  · simp [fresh, status]

theorem Ran.faithful (ran : r.Ran workflow jobs) : r.Faithful := by
  have same {entry : JobResult} (placed : r.finish.ledger.jobs = r.start.ledger.jobs ++ [entry]) :
      r.entry = entry := ran.entry_eq placed
  have placed := ran.placed
  have opening := Job.opening_of_runInstance ran.ran
  obtain ⟨site, definition, start, entry, result, finish⟩ := r
  cases opening with
  | unnamed untold => simp at placed
  | broken named opened => exact .of_notes named (.nil _ _) (same opened.placed)
  | skipped named opened => exact .of_skip named opened.skip.2 (same opened.skip.1)
  | @refused name title u finish named opened said left =>
    obtain ⟨v, opened, skipped⟩ := opened.refusal title
    obtain rfl := left.trans skipped
    exact .of_skip named opened.skip.2 (same opened.skip.1)
  | performed named opened performed =>
    obtain ⟨results, added, own⟩ := Job.results_of_perform opened.placed performed
    exact .of_notes named own (same added)

end InstanceRun

namespace Run

/-- A turn of a job with the instances that ran in it, one after the other. -/
structure Staged where
  turn : Turn
  runs : List InstanceRun

namespace Staged

def bindings (j : Staged) : List Mapping := j.runs.map (·.site.matrix)

def entries (j : Staged) : List JobResult := j.runs.map (·.entry)

def expansion (workflow : Mapping) (j : Staged) : Except Fault (List Mapping) :=
  Job.expansion workflow j.turn.name j.turn.job j.turn.start

/-- That the instances of a turn are those of its job for the first bindings of all that it is to
have, and that their results say what became of them. -/
structure Begun (workflow : Mapping) (root : String) (jobs : Mapping) (j : Staged) : Prop where
  row : Row workflow jobs j.turn.start j.runs j.turn.result j.turn.finish
  own : ∀ r ∈ j.runs, r.definition = j.turn.job.mapping?.getD [] ∧
    r.site = ⟨workflow, root, j.turn.name, .map r.definition, r.site.matrix, []⟩
  first : j.bindings <+: (j.expansion workflow).toOption.getD []
  faithful : ∀ r ∈ j.runs, r.Faithful

/-- That moreover there is one instance for each of the bindings. -/
structure Ended (workflow : Mapping) (root : String) (jobs : Mapping) (j : Staged) : Prop
    extends Begun workflow root jobs j where
  whole : j.expansion workflow = .ok j.bindings

end Staged

variable {workflow jobs : Mapping} {root : String} {s u : Session} {result : Except Fault Unit}
  {turns : List Turn} {t : Turn}

theorem Turn.Taken.staged (taken : t.Taken workflow root jobs) :
    ∃ runs, Staged.Begun workflow root jobs ⟨t, runs⟩ ∧
      (t.result = .ok () → Staged.Ended workflow root jobs ⟨t, runs⟩) ∧
      t.finish.ledger.jobs = t.start.ledger.jobs ++ Staged.entries ⟨t, runs⟩ := by
  obtain ⟨runs, row, expands, follows⟩ := Job.row_of_run taken.stated taken.ran
  have ran := row.instances
  have begun : Staged.Begun workflow root jobs ⟨t, runs⟩ := by
    refine ⟨row, fun r member => ?_, follows.first, fun r member => (ran.each r member).1.faithful⟩
    obtain ⟨sited, defined⟩ := follows.own r member
    rw [defined]
    exact ⟨rfl, sited⟩
  refine ⟨runs, begun, fun ended => ⟨begun, ?_⟩, ran.ledger⟩
  obtain ⟨bindings, expanded⟩ := expands ended
  have whole := follows.whole ended
  rw [expanded] at whole
  exact expanded.trans (congrArg Except.ok whole.symm)

theorem Turns.staged (turned : Turns workflow root jobs s turns result u) :
    ∃ (done : List Staged) (current : Option Staged),
      turns = (done ++ current.toList).map (·.turn) ∧
      (∀ j ∈ done, j.Ended workflow root jobs) ∧ (∀ j ∈ current, j.Begun workflow root jobs) ∧
      u.ledger.completed = s.ledger.completed ++ done.map (·.turn.name) ∧
      u.ledger.jobs = s.ledger.jobs ++ (done ++ current.toList).flatMap (·.entries) := by
  induction turned with
  | none | unclear => exact ⟨[], .none, by simp⟩
  | @failed t fault taken failed =>
    obtain ⟨runs, begun, -, added⟩ := taken.staged
    refine ⟨[], some ⟨t, runs⟩, rfl, List.forall_mem_nil _, ?_, ?_, ?_⟩
    · rintro j ⟨⟩
      exact begun
    · rw [t.finish_completed, List.map_nil, List.append_nil]
    · simpa using added
  | @next t turns result u taken ended rest ih =>
    obtain ⟨runs, -, own, added⟩ := taken.staged
    obtain ⟨done, current, same, ends, begun, completes, adds⟩ := ih
    refine ⟨⟨t, runs⟩ :: done, current, by rw [same]; rfl, ?_, begun, ?_, ?_⟩
    · exact List.forall_mem_cons.mpr ⟨own ended, ends⟩
    · rw [completes, t.noted_completed, List.append_assoc]
      rfl
    · have noted : t.noted.ledger.jobs = t.finish.ledger.jobs := rfl
      rw [adds, noted, added, List.append_assoc]
      rfl

/-- **Results.** However a run ends, its results are those of the jobs that are done, in the order
in which they were done and one for each of the instances that a job is to have, and thereafter
those of the first instances of the job that was running. A result has the name of its instance and
results of the first steps that the job states, by their names; it is failed exactly if one of them
is; and if it is skipped it has none, and its instance executed, called and recorded nothing. -/
theorem results_tell_the_run (workflow : Mapping) (root : String) (s : Session) :
    ∃ (done : List Staged) (current : Option Staged),
      Account workflow (Path.tidy root) s ((done ++ current.toList).map (·.turn))
        ((execute workflow root).perform s).2 ∧
      ((execute workflow root).perform s).2.ledger.completed = done.map (·.turn.name) ∧
      ((execute workflow root).perform s).2.ledger.jobs =
        (done ++ current.toList).flatMap (·.entries) ∧
      (∀ j ∈ done, j.Ended workflow (Path.tidy root) (statedJobs workflow)) ∧
      ∀ j ∈ current, j.Begun workflow (Path.tidy root) (statedJobs workflow) := by
  obtain ⟨start, turns, ended, last, opened, turned, closing⟩ := closing_of_execute workflow root s
  obtain ⟨done, current, rfl, ends, begun, completes, adds⟩ := turned.staged
  have written := closing.written
  obtain ⟨name, fresh⟩ := opened.ledger
  refine ⟨done, current, ⟨start, ended, last, opened, turned, written⟩, ?_, ?_, ends, begun⟩
  · rw [written.completed, completes, fresh, List.nil_append]
  · rw [written.results, adds, fresh, List.nil_append]

end Run
end Rehearsal
