import Rehearsal.Proofs.Job.Maintained
import Rehearsal.Proofs.Run.Order

/-! When the turns of a run have ended, it is written that the user quit, or which jobs could not
run, or nothing. `closing_of_execute` tells the outcome of a run from that of its turns. -/

namespace Rehearsal.Run

open Play

variable {workflow jobs : Mapping} {root : String} {s t u : Session}
  {result ended : Except Fault Unit} {turns : List Turn}

/-- A session in which it is written and noted that the user quit. -/
def aborted (s : Session) : Session :=
  let said := (Deed.log .info "Workflow execution stopped by user").after s
  { said with ledger := { said.ledger with aborted := true } }

theorem perform_stop_quit (s : Session) : (stop .quit).perform s = (.error .quit, aborted s) := by
  unfold stop
  rw [info, perform_bind_ok (Deed.perform_log_eq_after ..),
    perform_bind_ok (perform_modifyLedger ..)]
  rfl

theorem perform_stop_of_ne {fault : Fault} (other : fault ≠ .quit) (s : Session) :
    (stop fault).perform s = (.error fault, s) := by
  unfold stop
  split
  · exact absurd rfl other
  · rfl

inductive Closing (last : Session) : Except Fault Unit → Except Fault Unit → Session → Prop where
  | quit : Closing last (.error .quit) (.error .quit) (aborted last)
  | failed {fault : Fault} (other : fault ≠ .quit) : Closing last (.error fault) (.error fault) last
  | ended {result : Except Fault Unit} (settles : Settles result) {deeds : List Deed}
      (reports : ∀ d ∈ deeds, ∃ message, d = .log .warning message) :
      Closing last (.ok ()) result (Deed.all deeds last)

variable {last : Session}

theorem Closing.still {result : Except Fault Unit} (settles : Settles result) :
    Closing last (.ok ()) result last := .ended settles (List.forall_mem_nil _)

theorem Closing.of_error {result : Except Fault Unit} {fault : Fault}
    (closing : Closing last ended result t) (failed : ended = .error fault) :
    result = .error fault := by
  cases closing with
  | quit => exact failed
  | failed => exact failed
  | ended => cases failed

theorem Closing.written (closing : Closing last ended result t) : Written last t := by
  cases closing with
  | quit => exact ((Written.refl last).log ..).abort
  | failed => exact .refl _
  | @ended _ _ deeds reports =>
    refine Deed.all_keep (fun own written => ?_) reports (.refl last)
    obtain ⟨message, rfl⟩ := own
    exact written.log ..

theorem Rounds.ends {rounds : List (List Turn)}
    (run : Rounds workflow root jobs s rounds result u) :
    ∃ ended last, Turns workflow root jobs s rounds.flatten ended last ∧
      ((∃ fault, ended = .error fault ∧ result = .error fault ∧ u = last) ∨
        ended = .ok () ∧ Settles result ∧
          ∃ deeds, (∀ d ∈ deeds, ∃ message, d = .log .warning message) ∧
            u = Deed.all deeds last) := by
  induction run with
  | done => exact ⟨_, _, .none _, .inr ⟨rfl, trivial, [], List.forall_mem_nil _, rfl⟩⟩
  | @failed s u turns fault left passed turned =>
    exact ⟨.error fault, u, by rwa [List.flatten_singleton], .inl ⟨fault, rfl, rfl, rfl⟩⟩
  | @stuck s u result left passed waits reported =>
    have settles := ((reportStuck_ordinary jobs).outcome s trivial).2
    rw [reported] at settles
    refine ⟨.ok (), s, .none s, .inr ⟨rfl, settles, ?_⟩⟩
    rw [perform_reportStuck] at reported
    split at reported
    · cases reported
      exact ⟨[], List.forall_mem_nil _, rfl⟩
    · cases reported
      exact ⟨_, by simp, rfl⟩
  | next left passed turned some rest ih =>
    obtain ⟨ended, last, more, reported⟩ := ih
    exact ⟨ended, last, turned.append more, reported⟩

theorem closing_of_execute (workflow : Mapping) (root : String) (s : Session) :
    ∃ start turns ended last, Opened s start ∧
      Turns workflow (Path.tidy root) (statedJobs workflow) start turns ended last ∧
      Closing last ended ((execute workflow root).perform s).1
        ((execute workflow root).perform s).2 := by
  unfold execute
  cases opening : (openLedger workflow).perform s with
  | mk result first =>
    have opened := opened_of_openLedger opening
    rw [perform_bind, opening]
    cases result with
    | error fault =>
      have ordinary : Ordinary (openLedger workflow) :=
        .bind (.change _) fun _ => .bind (.fit _) fun _ => .change _
      have settles := (ordinary.outcome s trivial).2
      rw [opening] at settles
      exact ⟨first, [], .ok (), first, opened, .none first, .still settles⟩
    | ok =>
      obtain ⟨start, detected, opened⟩ := opened_of_detectToolchain opened
      dsimp only
      rw [perform_bind_ok detected, perform_tryCatch, perform_runJobs]
      cases mapped : Run.jobs workflow with
      | error fault =>
        have settles := jobs_settles workflow
        rw [mapped] at settles
        dsimp only
        rw [perform_stop_of_ne settles.ne_quit]
        exact ⟨start, [], .ok (), start, opened, .none start, .still settles⟩
      | ok jobs =>
        have same : statedJobs workflow = jobs := by rw [statedJobs, mapped]; rfl
        cases passed : passesFrom workflow (Path.tidy root) jobs start with
        | mk result u =>
          obtain ⟨rounds, run⟩ := rounds_of_passesFrom start passed
          obtain ⟨ended, last, turned, reported⟩ := run.ends
          rw [← same] at turned
          refine ⟨start, rounds.flatten, ended, last, opened, turned, ?_⟩
          dsimp only
          rw [passed]
          rcases reported with ⟨fault, rfl, rfl, rfl⟩ | ⟨rfl, settles, deeds, reports, rfl⟩
          · dsimp only
            by_cases quits : fault = .quit
            · rw [quits, perform_stop_quit]
              exact .quit
            · rw [perform_stop_of_ne quits]
              exact .failed quits
          · cases result with
            | ok => exact .ended settles reports
            | error fault =>
              dsimp only
              rw [perform_stop_of_ne settles.ne_quit]
              exact .ended settles reports

/-! ### Turns -/

/-- What the jobs of a workflow maintain, its turns maintain, if it is kept when a job is noted as
done and is enough where the needs of a job cannot be told. -/
theorem Turns.left {Fit : Session → Prop} {Out : Fault → Session → Prop}
    (turned : Turns workflow root jobs s turns result u)
    (runs : ∀ name job, Maintains Fit Out (Job.run workflow root name job))
    (notes : ∀ name s, Fit s → Fit { s with ledger := s.ledger.complete name })
    (fails : ∀ {fault s}, fault.Ordinary → Fit s → Out fault s) (fit : Fit s) :
    Left Fit Out result u := by
  induction turned with
  | none => exact fit
  | @unclear fault s entry stated unreadable =>
    have settles := Job.needs_settles entry.2
    rw [unreadable] at settles
    exact fails settles fit
  | @failed t fault taken failed =>
    have left := (runs t.name t.job).left fit taken.ran
    rwa [failed] at left
  | @next t _ _ _ taken ended rest ih =>
    have left := (runs t.name t.job).left fit taken.ran
    rw [ended] at left
    exact ih (notes t.name t.finish left)

end Rehearsal.Run
