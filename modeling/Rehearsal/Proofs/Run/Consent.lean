import Rehearsal.Proofs.Job.History
import Rehearsal.Proofs.Run.Closing

/-! The turns of a run come down to the steps that its jobs perform: `history_of_execute`. No
command of a step is executed against the user's will: a run executes it after it was reviewed, or
after all commands were allowed. -/

/-! ### Histories of runs -/

namespace Rehearsal.Run

open Play

variable {workflow jobs : Mapping} {root : String} {s t u : Session} {result : Except Fault Unit}

theorem Turn.quiet_noted (t : Turn) : Quiet t.finish t.noted :=
  ⟨⟨[], rfl, by simp⟩, rfl, rfl, fun _ _ found _ => found⟩

theorem Written.quiet (written : Written s t) : Quiet s t := by
  obtain ⟨records, logs, same⟩ := written
  rw [same]
  refine ⟨⟨records, rfl, ?_⟩, rfl, rfl, fun _ _ found _ => found⟩
  intro event member
  obtain ⟨level, message, rfl⟩ := logs event member
  rfl

theorem Turn.Taken.leads {t : Turn} (taken : t.Taken workflow root jobs) :
    Leads workflow jobs t.start t.result t.finish := Job.leads_of_run taken.stated taken.ran

theorem Turns.leads {turns : List Turn} (turned : Turns workflow root jobs s turns result u) :
    Leads workflow jobs s result u := by
  induction turned with
  | none s => exact .of_quiet (.refl s)
  | unclear => exact .of_quiet (.refl _)
  | failed taken failed => exact failed ▸ taken.leads
  | next taken ended rest ih => exact (ended ▸ taken.leads).trans (.quiet (Turn.quiet_noted _) ih)

/-- **Faults of steps.** A run opens a ledger and then performs steps, one after the other. A step
that ends with a fault is the last one, and the fault is that of the run. -/
theorem history_of_execute (workflow : Mapping) (root : String) (s : Session) :
    ∃ start runs, Opened s start ∧
      History workflow (statedJobs workflow) start runs ((execute workflow root).perform s).2 ∧
      Carries runs ((execute workflow root).perform s).1 := by
  obtain ⟨start, turns, ended, last, opened, turned, closing⟩ := closing_of_execute workflow root s
  obtain ⟨runs, history, carries⟩ := turned.leads
  refine ⟨start, runs, opened, ?_, fun r member fault fails => ?_⟩
  · simpa using history.append (.quiet closing.written.quiet (.nil _))
  · obtain ⟨final, same⟩ := carries r member fault fails
    exact ⟨final, closing.of_error same⟩

end Rehearsal.Run

namespace Rehearsal

/-! ### Steps without commands -/

namespace Deed

theorem Works.after_policy {d : Deed} {job : Scalar} (h : d.Works job) (s : Session) :
    (d.after s).policy = s.policy := by
  cases d <;> first | exact h.elim | simp [after, play, Play.echo, Play.perform_discard]

end Deed

namespace Step

open Play

variable {s t : Session}

theorem perform_works {site : Site} {step : Value} {name stepId : String}
    (other : ¬IsCommand step) : Does (Deed.Works site.job) (perform site step name stepId) := by
  unfold perform
  refine .bind (directory_inquires ..).works fun directory => ?_
  cases stated : member "run" step with
  | error fault => exact .throw fault
  | ok command =>
    have none : command = .null :=
      Classical.byContradiction fun some => other ⟨command, stated, some⟩
    subst none
    show Does _ (Play.adopt (member "uses" step) >>= _)
    refine .bind (.adopt _) fun action => ?_
    dsimp only
    split
    · exact runAction_works ..
    · refine .bind .get fun s => ?_
      split
      · exact .bind (info_works _) fun _ => .pure _
      · refine .bind (info_works _) fun _ => .bind ?_ fun _ => .pure _
        exact .of_deed .pause (fun _ => rfl) trivial

theorem run_works (site : Site) {step : Value} (index : Nat) (other : ¬IsCommand step) :
    Does (Deed.Works site.job) (run site step index) := by
  refine .bind (.adopt _) fun name => .bind (.adopt _) fun stepId => .bind (info_works _) fun _ =>
    .bind (.adopt _) fun condition => .bind (Condition.holds_inquires ..).works fun holds => ?_
  split
  · exact perform_works other
  · exact .bind (.fit _) fun _ => .bind (info_works _) fun _ => .pure _

end Step

/-! ### From the steps to the run -/

namespace StepRun

open Step

variable {workflow jobs : Mapping} {r : StepRun}

/-- A performance adds events, and all commands are allowed after it only if they were before or an
answer in it says so. -/
theorem Ran.allows (ran : r.Ran workflow jobs) :
    ∃ new, r.finish.trace = new ++ r.start.trace ∧
      (r.finish.policy.runAllCommands = true →
        r.start.policy.runAllCommands = true ∨ AllowsAll new) := by
  rcases ran.cases with ⟨fault, -, same⟩ | ⟨started, result, u, -, performed, -, finish⟩
  · exact ⟨[], by rw [same]; rfl, by rw [same]; exact .inl⟩
  rw [finish]
  by_cases command : IsCommand r.step
  · obtain ⟨new, told⟩ := (course_of_run command performed).told
    exact ⟨new, told.trace, told.allows⟩
  · have idle := run_works r.site r.index command
    have policy := idle.keeps (·.policy) (fun d v kind => kind.after_policy v)
      ((Deed.addStep started).after r.start)
    obtain ⟨deeds, -, same⟩ := idle.deeds ((Deed.addStep started).after r.start)
    rw [performed] at policy same
    obtain ⟨new, trace, -⟩ := Deed.all_events deeds ((Deed.addStep started).after r.start)
    rw [← same] at trace
    have kept : u.policy = r.start.policy := policy
    exact ⟨new, trace, fun all => .inl (by rw [← kept]; exact all)⟩

theorem Ran.logging (ran : r.Ran workflow jobs) : r.finish.logging = r.start.logging := by
  have kept := (Job.runStep_ofJob r.site r.step r.index).keeps (·.logging)
    (fun d u _ => d.after_logging u) r.start
  rwa [ran.ran] at kept

theorem Ran.consented (ran : r.Ran workflow jobs) (command : IsCommand r.step) :
    Consented (r.start.policy.runAllCommands = true) r.start.logging
      (r.finish.since r.start) := by
  rcases ran.cases with ⟨fault, -, same⟩ | ⟨started, result, u, -, performed, -, finish⟩
  · rw [Session.since_eq (show r.finish.trace = [] ++ r.start.trace by rw [same]; rfl)]
    exact .idle (by simp)
  · obtain ⟨new, told⟩ := (course_of_run command performed).told
    have added : r.finish.trace = new ++ r.start.trace := by rw [finish]; exact told.trace
    rw [Session.since_eq added]
    exact told.consented

end StepRun

theorem History.allows {workflow jobs : Mapping} {s t : Session} {runs : List StepRun}
    (history : History workflow jobs s runs t) :
    ∃ new, t.trace = new ++ s.trace ∧
      (t.policy.runAllCommands = true →
        s.policy.runAllCommands = true ∨ Step.AllowsAll new) := by
  induction history with
  | nil s => exact ⟨[], rfl, .inl⟩
  | quiet first rest ih =>
    obtain ⟨new, trace, -⟩ := first.trace
    obtain ⟨more, traces, allows⟩ := ih
    refine ⟨more ++ new, by rw [traces, trace, List.append_assoc], fun all => ?_⟩
    rw [← first.allows]
    exact (allows all).imp_right fun later => later.mono (List.subset_append_left ..)
  | step ran rest ih =>
    obtain ⟨new, trace, first⟩ := ran.allows
    obtain ⟨more, traces, allows⟩ := ih
    refine ⟨more ++ new, by rw [traces, trace, List.append_assoc], fun all => ?_⟩
    rcases allows all with before | later
    · exact (first before).imp_right fun own => own.mono (List.subset_append_right ..)
    · exact .inr (later.mono (List.subset_append_left ..))

theorem History.logging {workflow jobs : Mapping} {s t : Session} {runs : List StepRun}
    (history : History workflow jobs s runs t) : t.logging = s.logging := by
  induction history with
  | nil s => rfl
  | quiet first rest ih => rw [ih, first.logging]
  | step ran rest ih => rw [ih, ran.logging]

namespace Run

open Play

/-- **Consent.** Of the steps that a run performs, each one that states a command executes nothing,
or just one command, which was confirmed right after it was shown unless all commands were allowed
from the beginning or by an earlier answer. A command that was refused is not executed, and between
the steps none is. -/
theorem commands_need_consent (workflow : Mapping) (root : String) (s : Session) :
    ∃ start runs, Opened s start ∧
      History workflow (statedJobs workflow) start runs ((execute workflow root).perform s).2 ∧
      ∀ r ∈ runs, Step.IsCommand r.step →
        Step.Consented (s.policy.runAllCommands = true ∨ Step.AllowsAll (r.start.since s))
          s.logging (r.finish.since r.start) := by
  obtain ⟨start, runs, opened, history, -⟩ := history_of_execute workflow root s
  refine ⟨start, runs, opened, history, ?_⟩
  intro r member command
  obtain ⟨before, after, -, earlier, ran, -⟩ := history.split member
  obtain ⟨new, trace, allows⟩ := earlier.allows
  have logging : r.start.logging = s.logging := by rw [earlier.logging, opened.logging]
  obtain ⟨records, toolchain, -, same⟩ := opened.rest
  have policy : start.policy = s.policy := by rw [same]
  have traced : r.start.trace = (new ++ records) ++ s.trace := by
    rw [trace, same, List.append_assoc]
  rw [Session.since_eq traced, ← logging]
  refine (ran.consented command).mono fun all => ?_
  rw [← policy]
  exact (allows all).imp_right fun later => later.mono (List.subset_append_left ..)

end Run
end Rehearsal
