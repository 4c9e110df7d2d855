import Rehearsal.Proofs.Step.Review

/-! A run comes down to the steps that it performs, one after the other, each in its place of the
ledger. What happens between two steps executes nothing, asks nothing about commands, and leaves the
results of steps as they are. `history_of_run` gives the history of a job. -/

namespace Rehearsal

/-! ### Results -/

namespace JobResult

def note (step : StepResult) (j : JobResult) : JobResult :=
  { j with
    steps := j.steps ++ [step]
    status := if step.status = .failed then .failed else j.status }

end JobResult

namespace Ledger

variable {l : Ledger} {earlier : List JobResult} {entry : JobResult}

theorem updateLast_eq (placed : l.jobs = earlier ++ [entry]) (f : JobResult → JobResult) :
    l.updateLast f = { l with jobs := earlier ++ [f entry] } := by
  simp [updateLast, placed]

/-- That the results of steps in a ledger are kept in a later one, and that instances keep their
names and stay failed. -/
def Keeps (l later : Ledger) : Prop :=
  ∀ (i k : Nat) (entry : JobResult) (step : StepResult), l.jobs[i]? = some entry →
    entry.steps[k]? = some step → ∃ after, later.jobs[i]? = some after ∧
      after.name = entry.name ∧ after.steps[k]? = some step ∧
      (entry.status = .failed → after.status = .failed)

theorem Keeps.refl (l : Ledger) : l.Keeps l :=
  fun _ _ entry _ found stated => ⟨entry, found, rfl, stated, id⟩

theorem Keeps.trans {l m n : Ledger} (first : l.Keeps m) (rest : m.Keeps n) : l.Keeps n := by
  intro i k entry step found stated
  obtain ⟨between, found, named, stated, failed⟩ := first i k entry step found stated
  obtain ⟨after, found, names, stated, fails⟩ := rest i k between step found stated
  exact ⟨after, found, names.trans named, stated, fails ∘ failed⟩

theorem keeps_note {l later : Ledger} (placed : l.jobs = earlier ++ [entry]) (step : StepResult)
    (added : later.jobs = earlier ++ [entry.note step]) : l.Keeps later := by
  intro i k own result found stated
  rw [placed] at found
  rw [added]
  rcases Nat.lt_or_ge i earlier.length with before | after
  · rw [List.getElem?_append_left before] at found
    rw [List.getElem?_append_left before]
    exact ⟨own, found, rfl, stated, id⟩
  · rw [List.getElem?_append_right after, List.getElem?_singleton] at found
    rw [List.getElem?_append_right after, List.getElem?_singleton]
    split at found
    · next last =>
      cases found
      have within := (List.getElem?_eq_some_iff.mp stated).1
      refine ⟨_, if_pos last, rfl, ?_, fun failed => ?_⟩
      · rw [← stated]
        exact List.getElem?_append_left within
      · simp [JobResult.note, failed]
    · cases found

end Ledger

/-! ### What lies between steps -/

/-- Whether an event is about a command: its execution or an answer about it. -/
def Event.isOfCommand : Event → Bool
  | exec .. => true
  | ask question _ => question == Step.commandQuestion || question == Step.failureQuestion
  | _ => false

/-- That between two sessions no command was dealt with, and that results with steps are as they
were. -/
structure Quiet (s t : Session) : Prop where
  trace : ∃ new, t.trace = new ++ s.trace ∧ ∀ event ∈ new, event.isOfCommand = false
  allows : t.policy.runAllCommands = s.policy.runAllCommands
  logging : t.logging = s.logging
  results : ∀ (i : Nat) (entry : JobResult), s.ledger.jobs[i]? = some entry → entry.steps ≠ [] →
    t.ledger.jobs[i]? = some entry

namespace Quiet

variable {s t u : Session}

theorem refl (s : Session) : Quiet s s := ⟨⟨[], rfl, by simp⟩, rfl, rfl, fun _ _ found _ => found⟩

theorem trans (first : Quiet s t) (rest : Quiet t u) : Quiet s u := by
  obtain ⟨new, trace, other⟩ := first.trace
  obtain ⟨more, traces, others⟩ := rest.trace
  refine ⟨⟨more ++ new, by rw [traces, trace, List.append_assoc], ?_⟩,
    rest.allows.trans first.allows, rest.logging.trans first.logging, ?_⟩
  · exact List.forall_mem_append.mpr ⟨others, other⟩
  · exact fun i entry found some => rest.results i entry (first.results i entry found some) some

theorem keeps (quiet : Quiet s t) : s.ledger.Keeps t.ledger := by
  intro i k entry step found stated
  have some : entry.steps ≠ [] := by
    intro none
    rw [none] at stated
    cases stated
  exact ⟨entry, quiet.results i entry found some, rfl, stated, id⟩

end Quiet

theorem Event.Aside.isOfCommand {event : Event} (aside : event.Aside) :
    event.isOfCommand = false := by
  cases event with
  | exec => exact absurd aside.unexecuted (by simp [isExec])
  | ask question answer =>
    have other : Answers.isConfirmation question.text = false := aside.unconfirmed
    simp only [Event.isOfCommand, Bool.or_eq_false_iff, beq_eq_false_iff_ne, ne_eq]
    constructor
    · rintro rfl
      rw [Step.commandQuestion_confirms] at other
      cases other
    · rintro rfl
      rw [Step.failureQuestion_confirms] at other
      cases other
  | _ => rfl

theorem Aside.quiet {s t : Session} (aside : Aside s t) : Quiet s t := by
  obtain ⟨new, trace, plain⟩ := aside.trace
  refine ⟨⟨new, trace, fun event member => (plain event member).isOfCommand⟩, ?_, aside.logging, ?_⟩
  · rw [aside.policy]
  · intro i entry found _
    rw [aside.ledger]
    exact found

/-! ### Performances of steps -/

/-- One performance of a step, with the results of the instances so far: those of the earlier ones
and that of its own. -/
structure StepRun where
  site : Step.Site
  step : Value
  index : Nat
  earlier : List JobResult
  entry : JobResult
  start : Session
  result : Except Fault Bool
  finish : Session

namespace Job

/-- That a step stands at an index of a job of these. -/
def Declares (jobs : Mapping) (site : Step.Site) (index : Nat) (step : Value) : Prop :=
  ∃ definition steps, (site.job, definition) ∈ jobs ∧
    site.definition = .map (definition.mapping?.getD []) ∧
    Job.steps (definition.mapping?.getD []) = .ok steps ∧ steps[index]? = some step

end Job

namespace StepRun

/-- That a performance is one of the running program: of a step of one of these jobs, in the place
of the ledger that belongs to it. -/
structure Ran (workflow jobs : Mapping) (r : StepRun) : Prop where
  ran : (Job.runStep r.site r.step r.index).perform r.start = (r.result, r.finish)
  within : r.site.workflow = workflow
  declared : Job.Declares jobs r.site r.index r.step
  placed : r.start.ledger.jobs = r.earlier ++ [r.entry]
  named : Job.displayName r.site.job r.site.matrix = .ok r.entry.name
  counted : r.entry.steps.length = r.index

end StepRun

/-- Performances of steps one after the other, from one session to another. -/
inductive History (workflow jobs : Mapping) : Session → List StepRun → Session → Prop where
  | nil (s : Session) : History workflow jobs s [] s
  | quiet {s t u : Session} {runs : List StepRun} (first : Quiet s t)
      (rest : History workflow jobs t runs u) : History workflow jobs s runs u
  | step {r : StepRun} {runs : List StepRun} {u : Session} (ran : r.Ran workflow jobs)
      (rest : History workflow jobs r.finish runs u) : History workflow jobs r.start (r :: runs) u

namespace History

variable {workflow jobs : Mapping} {s t u : Session} {runs more : List StepRun}

theorem append (first : History workflow jobs s runs t) (rest : History workflow jobs t more u) :
    History workflow jobs s (runs ++ more) u := by
  induction first with
  | nil s => exact rest
  | quiet before _ ih => exact .quiet before (ih rest)
  | step ran _ ih => exact .step ran (ih rest)

theorem split {r : StepRun} (history : History workflow jobs s runs t) (member : r ∈ runs) :
    ∃ before after, runs = before ++ r :: after ∧ History workflow jobs s before r.start ∧
      r.Ran workflow jobs ∧ History workflow jobs r.finish after t := by
  induction history with
  | nil s => cases member
  | quiet first _ ih =>
    obtain ⟨before, after, same, earlier, ran, later⟩ := ih member
    exact ⟨before, after, same, .quiet first earlier, ran, later⟩
  | @step own runs u ran rest ih =>
    cases member with
    | head => exact ⟨[], runs, rfl, .nil _, ran, rest⟩
    | tail _ member =>
      obtain ⟨before, after, same, earlier, other, later⟩ := ih member
      exact ⟨own :: before, after, by rw [same]; rfl, .step ran earlier, other, later⟩

end History

def Carries {α : Type} (runs : List StepRun) (result : Except Fault α) : Prop :=
  ∀ r ∈ runs, ∀ fault, r.result = .error fault → runs.getLast? = some r ∧ result = .error fault

namespace Carries

variable {α β : Type} {runs more : List StepRun}

theorem nil (result : Except Fault α) : Carries [] result := List.forall_mem_nil _

theorem failed {r : StepRun} {fault : Fault} (fails : r.result = .error fault) :
    Carries [r] (.error fault : Except Fault α) := by
  intro other member own same
  obtain rfl := List.mem_singleton.mp member
  rw [fails] at same
  exact ⟨rfl, congrArg Except.error (Except.error.inj same)⟩

theorem ended {r : StepRun} {goes : Bool} (ends : r.result = .ok goes) (result : Except Fault α) :
    Carries [r] result := by
  intro other member own same
  obtain rfl := List.mem_singleton.mp member
  rw [ends] at same
  cases same

theorem append {a : α} {result : Except Fault β} (first : Carries runs (.ok a))
    (rest : Carries more result) : Carries (runs ++ more) result := by
  intro r member fault fails
  rcases List.mem_append.mp member with before | after
  · cases (first r before fault fails).2
  · obtain ⟨last, same⟩ := rest r after fault fails
    exact ⟨by rw [List.getLast?_append, last]; rfl, same⟩

theorem cast {fault : Fault} (first : Carries runs (.error fault : Except Fault α)) :
    Carries runs (.error fault : Except Fault β) := by
  intro r member own fails
  obtain ⟨last, same⟩ := first r member own fails
  exact ⟨last, congrArg Except.error (Except.error.inj same)⟩

end Carries

def Leads {α : Type} (workflow jobs : Mapping) (s : Session) (result : Except Fault α)
    (t : Session) : Prop :=
  ∃ runs, History workflow jobs s runs t ∧ Carries runs result

namespace Leads

variable {α β : Type} {workflow jobs : Mapping} {s t u : Session} {result : Except Fault β}

theorem of_quiet (quiet : Quiet s t) : Leads workflow jobs s result t :=
  ⟨[], .quiet quiet (.nil t), .nil _⟩

theorem of_aside (aside : Aside s t) : Leads workflow jobs s result t := of_quiet aside.quiet

theorem trans {a : α} (first : Leads workflow jobs s (.ok a : Except Fault α) t)
    (rest : Leads workflow jobs t result u) : Leads workflow jobs s result u := by
  obtain ⟨runs, before, carries⟩ := first
  obtain ⟨more, after, carry⟩ := rest
  exact ⟨runs ++ more, before.append after, carries.append carry⟩

theorem cast {fault : Fault} (first : Leads workflow jobs s (.error fault : Except Fault α) t) :
    Leads workflow jobs s (.error fault : Except Fault β) t := by
  obtain ⟨runs, history, carries⟩ := first
  exact ⟨runs, history, carries.cast⟩

theorem quiet (quiet : Quiet s t) (rest : Leads workflow jobs t result u) :
    Leads workflow jobs s result u := by
  obtain ⟨runs, history, carries⟩ := rest
  exact ⟨runs, .quiet quiet history, carries⟩

theorem aside (aside : Aside s t) (rest : Leads workflow jobs t result u) :
    Leads workflow jobs s result u := rest.quiet aside.quiet

theorem of_bind {first : Play α} {next : α → Play β}
    (does : Does Deed.Inquires first) (performed : (first >>= next).perform s = (result, t))
    (rest : ∀ a u, u.ledger = s.ledger → (next a).perform u = (result, t) →
      Leads workflow jobs u result t) : Leads workflow jobs s result t := by
  rcases Play.perform_bind_cases performed with ⟨fault, failed, -⟩ | ⟨a, u, ended, further⟩
  · exact .of_aside (.of_inquires does failed)
  · have aside := Aside.of_inquires does ended
    exact .aside aside (rest a u aside.ledger further)

end Leads

/-! ### From a job to its history -/

namespace Job

open Play
open Step (Site)

variable {workflow jobs : Mapping} {site : Site} {definition : Mapping} {s t u : Session}
  {earlier : List JobResult} {entry : JobResult}

/-- The status that the result of a step is left with. -/
def noted : Except Fault Step.Outcome → Status
  | .ok outcome => outcome.status
  | .error (.mismatch _) => .failed
  | .error _ => .skipped

theorem ledger_of_run {step : Value} {index : Nat} {result : Except Fault Step.Outcome}
    (performed : (Step.run site step index).perform s = (result, t)) : t.ledger = s.ledger := by
  have kept := (Step.run_ofStep site step index).keeps (·.ledger) (fun d u kind => by
    cases d <;> first
      | exact kind.elim
      | simp [Deed.after, Deed.play, Play.echo, Play.perform_discard]) s
  rwa [performed] at kept

theorem shape_of_startedStep {step : Value} {index : Nat} {started : StepResult}
    (ready : startedStep step index = .ok started) :
    Step.name step index = .ok started.name ∧ started.status = .skipped := by
  unfold startedStep at ready
  cases named : Step.name step index with
  | error fault =>
    rw [named] at ready
    cases ready
  | ok name =>
    rw [named] at ready
    cases stated : Step.member "run" step with
    | error fault =>
      rw [stated] at ready
      cases ready
    | ok command =>
      rw [stated] at ready
      dsimp only [bind, Except.bind] at ready
      split at ready
      · cases ready
        exact ⟨rfl, rfl⟩
      · cases told : orUnfit command.expressionText with
        | error fault =>
          rw [told] at ready
          cases ready
        | ok text =>
          rw [told] at ready
          cases ready
          exact ⟨rfl, rfl⟩

theorem setLastStep_addStep (started : StepResult) (status : Status) (j : JobResult) :
    (j.addStep started).setLastStep status =
      { j with steps := j.steps ++ [{ started with status }] } := by
  simp [JobResult.setLastStep, JobResult.addStep]

theorem note_started {step : Value} {index : Nat} {started : StepResult}
    (ready : startedStep step index = .ok started) (j : JobResult) :
    j.note { started with status := .skipped } = j.addStep started := by
  have skipped := (shape_of_startedStep ready).2
  cases started
  cases skipped
  rfl

theorem perform_runStep {step : Value} {index : Nat} {started : StepResult}
    {result : Except Fault Step.Outcome} {u : Session}
    (placed : s.ledger.jobs = earlier ++ [entry])
    (ready : startedStep step index = .ok started)
    (performed : (Step.run site step index).perform ((Deed.addStep started).after s) =
      (result, u)) :
    (runStep site step index).perform s = (result.map (!·.haltsJob), { u with
      ledger := { u.ledger with
        jobs := earlier ++ [entry.note { started with status := noted result }] } }) := by
  have adds : u.ledger = { s.ledger with jobs := earlier ++ [entry.addStep started] } :=
    (ledger_of_run performed).trans (Ledger.updateLast_eq placed _)
  have jobs : u.ledger.jobs = earlier ++ [entry.addStep started] := by rw [adds]
  have fails : failLast.perform u = (.ok (), { u with
      ledger := { u.ledger with
        jobs := earlier ++ [entry.note { started with status := .failed }] } }) := by
    unfold failLast
    rw [perform_modifyLedger, Ledger.updateLast_eq jobs, setLastStep_addStep]
    rfl
  have kept : { u with ledger := { u.ledger with
      jobs := earlier ++ [entry.note { started with status := .skipped }] } } = u := by
    rw [note_started ready, ← jobs]
  unfold runStep
  rw [ready, perform_bind_ok (perform_adopt ..), perform_bind_ok (perform_modifyLedger ..)]
  change (tryCatch (Step.run site step index) _ >>= _).perform ((Deed.addStep started).after s) = _
  rw [perform_bind, perform_tryCatch, performed]
  cases result with
  | ok outcome =>
    dsimp only
    split
    · next failed =>
      rw [perform_bind_ok fails]
      simp [noted, failed, Except.map]
    · next other =>
      rw [perform_bind_ok (perform_modifyLedger ..), Ledger.updateLast_eq jobs,
        setLastStep_addStep]
      simp [noted, other, Except.map, JobResult.note]
  | error fault =>
    cases fault with
    | mismatch m =>
      dsimp only
      rw [perform_bind_ok fails]
      rfl
    | _ => exact Prod.ext rfl kept.symm

theorem runStep_of_unready {step : Value} {index : Nat} {fault : Fault}
    (unready : startedStep step index = .error fault) :
    (runStep site step index).perform s = (.error fault, s) := by
  unfold runStep
  rw [unready]
  rfl

theorem cases_of_runStep {step : Value} {index : Nat} {result : Except Fault Bool}
    (placed : s.ledger.jobs = earlier ++ [entry])
    (performed : (runStep site step index).perform s = (result, t)) :
    (∃ fault, result = .error fault ∧ t = s) ∨
      ∃ started ended u, startedStep step index = .ok started ∧
        (Step.run site step index).perform ((Deed.addStep started).after s) = (ended, u) ∧
        result = ended.map (!·.haltsJob) ∧
        t = { u with ledger := { u.ledger with
          jobs := earlier ++ [entry.note { started with status := noted ended }] } } := by
  cases ready : startedStep step index with
  | error fault =>
    rw [runStep_of_unready ready] at performed
    obtain ⟨same, finish⟩ := Prod.mk.inj performed
    exact .inl ⟨fault, same.symm, finish.symm⟩
  | ok started =>
    cases ran : (Step.run site step index).perform ((Deed.addStep started).after s) with
    | mk ended u =>
      rw [perform_runStep placed ready ran] at performed
      obtain ⟨same, finish⟩ := Prod.mk.inj performed
      exact .inr ⟨started, ended, u, rfl, ran, same.symm, finish.symm⟩

end Job

/-- A performance has no result for its step, or it adds the result of what running the step
does. -/
theorem StepRun.Ran.cases {workflow jobs : Mapping} {r : StepRun} (ran : r.Ran workflow jobs) :
    (∃ fault, r.result = .error fault ∧ r.finish = r.start) ∨
      ∃ started result u, Job.startedStep r.step r.index = .ok started ∧
        (Step.run r.site r.step r.index).perform ((Deed.addStep started).after r.start) =
          (result, u) ∧
        r.result = result.map (!·.haltsJob) ∧
        r.finish = { u with ledger := { u.ledger with
          jobs := r.earlier ++ [r.entry.note { started with status := Job.noted result }] } } :=
  Job.cases_of_runStep ran.placed ran.ran

namespace Job

open Play
open Step (Site)

variable {workflow jobs : Mapping} {site : Site} {definition : Mapping} {s t u : Session}
  {earlier : List JobResult} {entry : JobResult} {result : Except Fault Unit}

/-- That a session is about to perform a step of an instance: the result of the instance is the
last one and has a result for each of the steps before. -/
def Stands (site : Site) (index : Nat) (s : Session) : Prop :=
  ∃ earlier entry, s.ledger.jobs = earlier ++ [entry] ∧
    displayName site.job site.matrix = .ok entry.name ∧ entry.steps.length = index

theorem leads_of_runSteps (site : Site) {items : List Value} {index : Nat}
    {result : Except Fault Bool} (within : site.workflow = workflow)
    (declared : ∀ k item, items[k]? = some item → Declares jobs site (index + k) item)
    (stands : Stands site index s)
    (performed : (runSteps site items index).perform s = (result, t)) :
    Leads workflow jobs s result t := by
  induction items generalizing index s with
  | nil =>
    cases performed
    exact ⟨[], .nil _, .nil _⟩
  | cons step rest ih =>
    obtain ⟨earlier, entry, placed, named, counted⟩ := stands
    have own : Declares jobs site index step := declared 0 step rfl
    have ranBy {first : Except Fault Bool} {u : Session}
        (ran : (runStep site step index).perform s = (first, u)) :
        StepRun.Ran workflow jobs ⟨site, step, index, earlier, entry, s, first, u⟩ :=
      ⟨ran, within, own, placed, named, counted⟩
    unfold runSteps at performed
    rcases perform_bind_cases performed with ⟨fault, failed, rfl⟩ | ⟨goes, u, first, further⟩
    · exact ⟨_, .step (ranBy failed) (.nil t), .failed rfl⟩
    · split at further
      · have stands : Stands site (index + 1) u := by
          rcases (ranBy first).cases with ⟨fault, same, -⟩ | ⟨started, ended, v, -, -, -, finish⟩
          · cases same
          · refine ⟨earlier, entry.note { started with status := noted ended },
              congrArg (·.ledger.jobs) finish, named, ?_⟩
            simp [JobResult.note, counted]
        obtain ⟨runs, history, carries⟩ := ih (fun k item found => by
          have := declared (k + 1) item (by simpa using found)
          rwa [Nat.add_comm k, ← Nat.add_assoc] at this) stands further
        have before : Carries [⟨site, step, index, earlier, entry, s, .ok goes, u⟩]
            (.ok goes : Except Fault Bool) := .ended rfl _
        exact ⟨_, .step (ranBy first) history, before.append carries⟩
      · cases further
        exact ⟨_, .step (ranBy first) (.nil t), .ended rfl _⟩

theorem recordEach_aside (scope : Scope) (outputs : List (Scalar × Value)) :
    Does Deed.Aside (recordEach scope outputs) := by
  induction outputs with
  | nil => exact .pure _
  | cons output rest ih =>
    obtain ⟨key, value⟩ := output
    refine .bind ((resolveJobOutput_inquires ..).mono fun _ => Deed.Inquires.aside) fun text =>
      .bind (.fit _) fun name => .bind ?_ fun _ => .bind (.mask _) fun _ =>
        .bind (.log trivial) fun _ => ih
    exact .of_deed (.recordJob scope.job name text) (fun _ => rfl) trivial

theorem recordOutputs_aside (scope : Scope) (definition : Mapping) :
    Does Deed.Aside (recordOutputs scope definition) := by
  unfold recordOutputs
  split
  · exact .bind (.log trivial) fun _ => recordEach_aside ..
  · exact .pure _

theorem Stands.of_ledger {index : Nat} (stands : Stands site index s)
    (same : t.ledger = s.ledger) : Stands site index t := by
  unfold Stands
  rw [same]
  exact stands

/-- That a site is that of a job of these, with this definition. -/
def Stated (jobs : Mapping) (site : Site) (definition : Mapping) : Prop :=
  ∃ job, (site.job, job) ∈ jobs ∧ site.definition = .map (job.mapping?.getD []) ∧
    definition = job.mapping?.getD []

theorem leads_of_perform {title : String} (within : site.workflow = workflow)
    (declared : Stated jobs site definition) (stands : Stands site 0 s)
    (performed : (perform site definition title).perform s = (result, t)) :
    Leads workflow jobs s result t := by
  unfold perform at performed
  refine .of_bind (environment_inquires ..) performed fun surroundings u same further => ?_
  rcases perform_bind_cases further with ⟨fault, failed, rfl⟩ | ⟨items, v, stated, further⟩
  · exact .of_aside (.of_inquires (.adopt _) failed)
  obtain ⟨listed, rfl⟩ := Prod.mk.inj ((perform_adopt ..).symm.trans stated)
  let equipped : Site := { site with jobEnvironment := surroundings }
  have declares (k : Nat) (item : Value) (found : items[k]? = some item) :
      Declares jobs equipped (0 + k) item := by
    obtain ⟨job, member, same, rfl⟩ := declared
    exact ⟨job, items, member, same, listed, by rwa [Nat.zero_add]⟩
  have ready : Stands equipped 0 u := stands.of_ledger same
  rcases perform_bind_cases further with ⟨fault, failed, rfl⟩ | ⟨ended, w, ran, further⟩
  · exact (leads_of_runSteps equipped within declares ready failed).cast
  refine (leads_of_runSteps equipped within declares ready ran).trans ?_
  split at further
  · exact .of_aside (.of_does (.bind (recordOutputs_aside ..) fun _ => .log trivial) further)
  · exact .of_aside (.of_does (.log trivial) further)

theorem quiet_of_start (name : Scalar) (s : Session) :
    Quiet s { s with ledger := s.ledger.start name } := by
  refine ⟨⟨[], rfl, by simp⟩, rfl, rfl, ?_⟩
  intro i entry found _
  show (s.ledger.jobs ++ [_])[i]? = some entry
  rw [List.getElem?_append_left (List.getElem?_eq_some_iff.mp found).1, found]

theorem quiet_of_skip (stands : Stands site 0 s) : Quiet s (Deed.skip.after s) := by
  obtain ⟨earlier, entry, placed, -, fresh⟩ := stands
  refine ⟨⟨[], rfl, by simp⟩, rfl, rfl, ?_⟩
  intro i own found performed
  show (s.ledger.updateLast _).jobs[i]? = some own
  rw [Ledger.updateLast_eq placed]
  rw [placed] at found
  rcases Nat.lt_or_ge i earlier.length with before | after
  · rw [List.getElem?_append_left before] at found ⊢
    exact found
  · rw [List.getElem?_append_right after] at found
    have last : own = entry := List.mem_singleton.mp (List.mem_of_getElem? found)
    rw [last] at performed
    exact absurd (List.eq_nil_of_length_eq_zero fresh) performed

def jobQuestion (title : String) : Question :=
  ⟨"Do you want to run job '" ++ title ++ "'?" ++ Answers.confirmationEnd, "n", false⟩

theorem isOfCommand_jobQuestion (title answer : String) :
    (Event.ask (jobQuestion title) answer).isOfCommand = false := by
  have begins (ending : String) :
      ("Do you want to run job '" ++ title ++ "'?" ++ ending).toList.head? = some 'D' := by simp
  have own : (jobQuestion title).text.toList.head? = some 'D' := begins _
  simp only [Event.isOfCommand, Bool.or_eq_false_iff, beq_eq_false_iff_ne, ne_eq]
  constructor
  · intro same
    rw [same, Step.head_commandQuestion] at own
    simp at own
  · intro same
    rw [same, Step.head_failureQuestion] at own
    simp at own

theorem quiet_of_ask {q : Question} (other : ∀ answer, (Event.ask q answer).isOfCommand = false)
    (s : Session) : Quiet s ((Deed.ask q).after s) := by
  refine ⟨⟨_, Deed.after_trace .., ?_⟩, rfl, rfl, fun _ _ found _ => found⟩
  intro event member
  rw [List.mem_singleton.mp member]
  exact other _

theorem ledger_of_ask (q : Question) (s : Session) : ((Deed.ask q).after s).ledger = s.ledger := rfl

theorem quiet_of_allowJobs (s : Session) : Quiet s (Deed.allowJobs.after s) :=
  ⟨⟨[], rfl, by simp⟩, rfl, rfl, fun _ _ found _ => found⟩

theorem ledger_of_allowJobs (s : Session) : (Deed.allowJobs.after s).ledger = s.ledger := rfl

/-- How an instance is confirmed: it is not asked about, or the answer decides. To quit skips it. -/
inductive Confirmed (title : String) (s : Session) : Except Fault Bool → Session → Prop where
  | unasked : Confirmed title s (.ok true) s
  | answered {agreed : Bool} {t : Session}
      (rest : Aside ((Deed.ask (jobQuestion title)).after s) t) : Confirmed title s (.ok agreed) t
  | all {t : Session}
      (rest : Aside (Deed.allowJobs.after ((Deed.ask (jobQuestion title)).after s)) t) :
      Confirmed title s (.ok true) t
  | quit {t : Session} (said : Step.reply (jobQuestion title) s = .quit)
      (rest : Aside ((Deed.ask (jobQuestion title)).after s) t) :
      Confirmed title s (.error .quit) (Deed.skip.after t)

inductive Answered (title : String) (s : Session) : Except Fault Bool → Session → Prop where
  | unasked : Answered title s (.ok true) s
  | yes (said : Step.reply (jobQuestion title) s = .yes) :
      Answered title s (.ok true) ((Deed.ask (jobQuestion title)).after s)
  | all (said : Step.reply (jobQuestion title) s = .all) :
      Answered title s (.ok true)
        ((Deed.log .info "[RUN ALL JOBS MODE ACTIVATED] Will auto-run all remaining jobs").after
          (Deed.allowJobs.after ((Deed.ask (jobQuestion title)).after s)))
  | no (said : Step.reply (jobQuestion title) s ≠ .quit)
      (refused : (Step.reply (jobQuestion title) s).grants = false) :
      Answered title s (.ok false) ((Deed.log .info "Skipping job (user chose not to run)").after
        ((Deed.ask (jobQuestion title)).after s))
  | quit (said : Step.reply (jobQuestion title) s = .quit) :
      Answered title s (.error .quit)
        (Deed.skip.after ((Deed.log .info "Quitting workflow execution").after
          ((Deed.ask (jobQuestion title)).after s)))

theorem perform_confirm (title : String) (s : Session) :
    (confirm ("Do you want to run job '" ++ title ++ "'?")).perform s =
      (.ok (Step.reply (jobQuestion title) s), (Deed.ask (jobQuestion title)).after s) :=
  Step.perform_confirm ..

theorem answered_of_perform {title : String} {result : Except Fault Bool}
    (performed : (confirmed title).perform s = (result, t)) : Answered title s result t := by
  unfold confirmed at performed
  rw [perform_get_bind] at performed
  dsimp only at performed
  split at performed
  · cases performed
    exact .unasked
  rw [perform_bind_ok (perform_confirm ..)] at performed
  cases said : Step.reply (jobQuestion title) s with
  | quit =>
    rw [said] at performed
    dsimp only at performed
    rw [perform_bind_ok (Deed.perform_info_eq_after ..)] at performed
    cases performed
    exact .quit said
  | all =>
    rw [said] at performed
    dsimp only at performed
    rw [perform_bind_ok (perform_modifyPolicy ..), perform_bind_ok (Deed.perform_info_eq_after ..)]
      at performed
    cases performed
    exact .all said
  | yes =>
    rw [said] at performed
    cases performed
    exact .yes said
  | no | skip =>
    rw [said] at performed
    dsimp only at performed
    rw [perform_bind_ok (Deed.perform_info_eq_after ..)] at performed
    cases performed
    exact .no (by rw [said]; nofun) (by rw [said]; rfl)

theorem confirmed_of_perform {title : String} {result : Except Fault Bool}
    (performed : (confirmed title).perform s = (result, t)) : Confirmed title s result t := by
  have logs (message : String) (u : Session) : Aside u ((Deed.log .info message).after u) :=
    ⟨[.log .info message], List.forall_mem_singleton.mpr trivial, rfl⟩
  cases answered_of_perform performed with
  | unasked => exact .unasked
  | yes => exact .answered (.refl _)
  | all => exact .all (logs ..)
  | no => exact .answered (logs ..)
  | quit said => exact .quit said (logs ..)

theorem quiet_of_confirmed {title : String} {result : Except Fault Bool} (stands : Stands site 0 s)
    (performed : (confirmed title).perform s = (result, t)) :
    Quiet s t ∧ (∀ b, result = .ok b → t.ledger = s.ledger) := by
  have asks := quiet_of_ask (isOfCommand_jobQuestion title) s
  have same := ledger_of_ask (jobQuestion title) s
  cases confirmed_of_perform performed with
  | unasked => exact ⟨.refl _, fun _ _ => rfl⟩
  | answered rest => exact ⟨asks.trans rest.quiet, fun _ _ => rest.ledger.trans same⟩
  | all rest =>
    have allowed := quiet_of_allowJobs ((Deed.ask (jobQuestion title)).after s)
    exact ⟨(asks.trans allowed).trans rest.quiet,
      fun _ _ => rest.ledger.trans ((ledger_of_allowJobs _).trans same)⟩
  | quit said rest =>
    have skips := quiet_of_skip (stands.of_ledger (rest.ledger.trans same))
    exact ⟨(asks.trans rest.quiet).trans skips, by simp⟩

theorem leads_of_runInstance (site : Site) (within : site.workflow = workflow)
    (declared : Stated jobs site definition)
    (performed : (runInstance site definition).perform s = (result, t)) :
    Leads workflow jobs s result t := by
  unfold runInstance at performed
  rcases perform_fit_cases performed with ⟨u, -, -, rfl⟩ | ⟨name, named, further⟩
  · exact .of_quiet (.refl _)
  rw [perform_bind_ok (perform_modifyLedger ..)] at further
  refine .quiet (quiet_of_start name s) ?_
  have stands : Stands site 0 { s with ledger := s.ledger.start name } :=
    ⟨s.ledger.jobs, { name }, rfl, named, rfl⟩
  generalize { s with ledger := s.ledger.start name } = v at further stands ⊢
  rcases perform_fit_cases further with ⟨u, -, -, rfl⟩ | ⟨title, -, further⟩
  · exact .of_quiet (.refl _)
  extract_lets stated condition entered shown at further
  have enters {u : Session} (stands : Stands site 0 u)
      (performed : (entered ()).perform u = (result, t)) : Leads workflow jobs u result t := by
    rcases perform_bind_cases performed with ⟨fault, failed, rfl⟩ | ⟨agreed, w, confirms, further⟩
    · exact .of_quiet (quiet_of_confirmed stands failed).1
    obtain ⟨quiet, kept⟩ := quiet_of_confirmed stands confirms
    have stands := stands.of_ledger (kept _ rfl)
    refine .quiet quiet ?_
    split at further
    · refine .of_bind (Condition.holds_inquires ..) further fun holds x same further => ?_
      have stands := stands.of_ledger same
      split at further
      · exact leads_of_perform within declared stands further
      · rcases perform_fit_cases further with ⟨u, -, -, rfl⟩ | ⟨text, -, further⟩
        · exact .of_quiet (.refl _)
        obtain ⟨z, spoken, further⟩ := Aside.of_info further
        cases further
        exact .of_quiet (spoken.quiet.trans (quiet_of_skip (stands.of_ledger spoken.ledger)))
    · cases further
      exact .of_quiet (quiet_of_skip stands)
  have shows {u : Session} (stands : Stands site 0 u)
      (performed : (shown ()).perform u = (result, t)) : Leads workflow jobs u result t := by
    dsimp only [shown] at performed
    split at performed
    · rcases perform_fit_cases performed with ⟨u, -, -, rfl⟩ | ⟨text, -, further⟩
      · exact .of_quiet (.refl _)
      obtain ⟨x, spoken, further⟩ := Aside.of_info further
      exact .aside spoken (enters (stands.of_ledger spoken.ledger) further)
    · exact enters stands performed
  obtain ⟨u, titles, further⟩ := Aside.of_info further
  have stands := stands.of_ledger titles.ledger
  refine .aside titles ?_
  split at further
  · rcases perform_fit_cases further with ⟨u, -, -, rfl⟩ | ⟨text, -, further⟩
    · exact .of_quiet (.refl _)
    obtain ⟨x, spoken, further⟩ := Aside.of_info further
    exact .aside spoken (shows (stands.of_ledger spoken.ledger) further)
  · exact shows stands further

theorem leads_of_runInstances {count number : Nat} {instances : List Mapping}
    (within : site.workflow = workflow) (declared : Stated jobs site definition)
    (performed : (runInstances site definition count instances number).perform s = (result, t)) :
    Leads workflow jobs s result t := by
  induction instances generalizing number s with
  | nil =>
    cases performed
    exact .of_quiet (.refl _)
  | cons bindings rest ih =>
    unfold runInstances at performed
    extract_lets ran at performed
    have runs {u : Session} (performed : (ran ()).perform u = (result, t)) :
        Leads workflow jobs u result t := by
      let own : Site := { site with matrix := bindings }
      rcases perform_bind_cases performed with ⟨fault, failed, rfl⟩ | ⟨_, v, first, further⟩
      · exact leads_of_runInstance own within declared failed
      · exact (leads_of_runInstance own within declared first).trans (ih further)
    split at performed
    · obtain ⟨u, spoken, performed⟩ := Aside.of_info performed
      exact .aside spoken (runs performed)
    · exact runs performed

theorem leads_of_run {root : String} {name : Scalar} {job : Value} (stated : (name, job) ∈ jobs)
    (performed : (run workflow root name job).perform s = (result, t)) :
    Leads workflow jobs s result t := by
  unfold run at performed
  refine .of_bind (Matrix.expand_inquires ..) performed fun instances u _ further => ?_
  exact leads_of_runInstances rfl ⟨job, stated, rfl, rfl⟩ further

end Job
end Rehearsal
