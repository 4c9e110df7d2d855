import Rehearsal.CommandLine.Perform
import Rehearsal.Proofs.Run.Cycle
import Rehearsal.Proofs.Workflow.Structure

/-! The exit code of a run is zero if the workflow is valid, the run came to its end and no instance
failed. Jobs that wait for each other do not change it: all jobs are done exactly if none do,
`exit_zero`. -/

namespace Rehearsal.CommandLine

open Play

variable {files : Files} {o : RunOptions} {s t u : Session} {path : String} {workflow : Mapping}

/-! ### The ways to zero -/

theorem eq_of_bind_pure {α : Type} {play : Play α} {code exit : Nat}
    (returned : (play >>= fun _ => (pure code : Play Nat)).perform s = (.ok exit, t)) :
    exit = code := by
  obtain ⟨a, u, -, rest⟩ := perform_bind_eq_ok returned
  cases rest
  rfl

theorem ne_zero_of_reportFault {fault : Fault} {exit : Nat}
    (reported : (reportFault fault).perform s = (.ok exit, t)) : exit ≠ 0 := by
  unfold reportFault at reported
  split at reported
  · obtain ⟨_, _, -, reported⟩ := perform_bind_eq_ok reported
    rw [eq_of_bind_pure reported]
    exact Nat.one_ne_zero
  · rw [eq_of_bind_pure reported]
    exact Nat.one_ne_zero
  · cases reported
  · cases reported
  · split at reported
    · rw [eq_of_bind_pure reported]
      exact Nat.succ_ne_zero 1
    · rw [eq_of_bind_pure reported]
      exact Nat.one_ne_zero

theorem ne_zero_of_reportProblems {problems : List Problem} {exit : Nat}
    (reported : (reportProblems problems).perform s = (.ok exit, t)) : exit ≠ 0 := by
  rw [eq_of_bind_pure reported]
  exact Nat.succ_ne_zero 1

def Shows : Deed → Prop
  | .echo _ => True
  | _ => False

theorem showSummary_shows : Does Shows showSummary :=
  .bind (.echo trivial) fun _ => .bind .get fun _ => .bind (.forIn fun _ _ =>
    .bind (.echo trivial) fun _ => .pure _) fun _ => .pure _

theorem showSummary_ledger (performed : showSummary.perform s = (.ok (), t)) :
    t.ledger = s.ledger := by
  have kept := showSummary_shows.keeps Session.ledger (fun d s shows => by
    cases d with
    | echo text => rfl
    | _ => cases shows) s
  rwa [performed] at kept

theorem execute_of_runAndSum {root : String}
    (ran : (runAndSum workflow root).perform s = (.ok 0, t)) :
    ∃ u, (Run.execute workflow root).perform s = (.ok (), u) ∧ t.ledger = u.ledger ∧
      t.ledger.failed = false := by
  unfold runAndSum at ran
  rw [perform_tryCatch] at ran
  split at ran
  · next code u summed =>
    cases ran
    obtain ⟨_, u, executed, summed⟩ := perform_bind_eq_ok summed
    obtain ⟨_, v, shown, summed⟩ := perform_bind_eq_ok summed
    rw [perform_get_bind] at summed
    have kept := showSummary_ledger shown
    cases failed : v.ledger.failed with
    | true =>
      rw [failed, if_pos rfl] at summed
      cases summed
    | false =>
      rw [failed, if_neg Bool.false_ne_true] at summed
      cases summed
      exact ⟨u, executed, kept, failed⟩
  · next fault u ended =>
    dsimp only at ran
    split at ran
    · obtain ⟨_, _, -, ran⟩ := perform_bind_eq_ok ran
      exact absurd (eq_of_bind_pure ran) Nat.zero_ne_one
    · cases ran

theorem execute_of_rehearse (rehearsed : (rehearse files o path workflow).perform s = (.ok 0, t)) :
    ∃ root u v, (Run.execute workflow root).perform u = (.ok (), v) ∧ t.ledger = v.ledger ∧
      t.ledger.failed = false := by
  obtain ⟨_, _, -, rehearsed⟩ := perform_bind_eq_ok rehearsed
  obtain ⟨_, _, -, rehearsed⟩ := perform_bind_eq_ok rehearsed
  obtain ⟨root, _, -, rehearsed⟩ := perform_bind_eq_ok rehearsed
  obtain ⟨_, _, -, rehearsed⟩ := perform_bind_eq_ok rehearsed
  obtain ⟨policy, u, -, rehearsed⟩ := perform_bind_eq_ok rehearsed
  have ran : ∃ v, (runAndSum workflow root).perform v = (.ok 0, t) := by
    dsimp only at rehearsed
    split at rehearsed
    · obtain ⟨_, _, -, rehearsed⟩ := perform_bind_eq_ok rehearsed
      obtain ⟨_, v, -, rehearsed⟩ := perform_bind_eq_ok rehearsed
      exact ⟨v, rehearsed⟩
    · obtain ⟨_, v, -, rehearsed⟩ := perform_bind_eq_ok rehearsed
      exact ⟨v, rehearsed⟩
  obtain ⟨v, ran⟩ := ran
  obtain ⟨w, executed, kept, fine⟩ := execute_of_runAndSum ran
  exact ⟨root, v, w, executed, kept, fine⟩

/-- The exit code zero tells that a workflow was loaded, and that it was run to its end without a
failed instance. -/
theorem execute_of_run (returned : (run files o).perform s = (.ok 0, t)) :
    ∃ path content workflow root u v, Workflow.fullPath files.directory o.workflow = .ok path ∧
      files.look path = .text content ∧ Workflow.load content = .ok workflow ∧
      (Run.execute workflow root).perform u = (.ok (), v) ∧ t.ledger = v.ledger ∧
      t.ledger.failed = false := by
  obtain ⟨_, _, -, returned⟩ := perform_bind_eq_ok returned
  rw [perform_tryCatch] at returned
  split at returned
  · next code u ran =>
    cases returned
    obtain ⟨path, _, located, ran⟩ := perform_bind_eq_ok ran
    rw [perform_adopt] at located
    have found := (Prod.mk.inj located).1
    split at ran
    · exact absurd (eq_of_bind_pure ran) Nat.zero_ne_one
    · cases ran
    · next present =>
      obtain ⟨_, _, -, ran⟩ := perform_bind_eq_ok ran
      split at ran
      · exact absurd rfl (ne_zero_of_reportProblems ran)
      · obtain ⟨workflow, _, loaded, ran⟩ := perform_bind_eq_ok ran
        rw [perform_adopt] at loaded
        have loads := (Prod.mk.inj loaded).1
        obtain ⟨root, v, w, executed, kept, fine⟩ := execute_of_rehearse ran
        unfold loadFile at loads
        split at loads
        · next content looked =>
          exact ⟨path, content, workflow, root, v, w, found, looked, loads, executed, kept, fine⟩
        · cases loads
        · cases loads
        · cases loads
  · exact absurd rfl (ne_zero_of_reportFault returned)

/-- **Exit code zero.** The workflow is valid, no instance failed, and all jobs are done exactly if
no jobs wait for each other. -/
theorem exit_zero (returned : (run files o).perform s = (.ok 0, t)) :
    ∃ path content workflow jobs, Workflow.fullPath files.directory o.workflow = .ok path ∧
      files.look path = .text content ∧ Workflow.load content = .ok workflow ∧
      Run.jobs workflow = .ok jobs ∧
      (∀ ran ∈ t.ledger.jobs, ran.status ≠ .failed) ∧
      ((∀ entry ∈ jobs, Job.isDone t.ledger.completed entry.1 = true) ↔ Run.Acyclic jobs) := by
  obtain ⟨path, content, workflow, root, u, v, located, looked, loaded, executed, kept, fine⟩ :=
    execute_of_run returned
  obtain ⟨document, valid, opened, proper⟩ := Workflow.document_of_load loaded
  obtain ⟨jobs, mapped, -⟩ := Workflow.jobs_of_valid valid opened
  have distinct := Workflow.distinct_jobs proper opened mapped
  obtain ⟨start, rounds, opening, ran⟩ := Run.rounds_of_execute mapped executed
  have orderly : Run.Orderly jobs start.ledger.completed := opening.completed ▸ .nil
  refine ⟨path, content, workflow, jobs, located, looked, loaded, mapped, ?_, ?_⟩
  · intro ran member failed
    have none := List.any_eq_false.mp fine ran member
    rw [failed] at none
    exact none rfl
  · rw [kept]
    constructor
    · intro all
      obtain ⟨ended, last, turned, written⟩ := ran.turns
      have grounded := turned.grounded distinct
        (by rw [opening.completed]; exact ⟨by simp, by simp⟩)
      rw [← written.completed] at grounded
      exact grounded.no_cycle all
    · intro acyclic entry stated
      by_contra left
      have remaining : Job.remaining jobs v.ledger.completed ≠ [] := by
        refine List.ne_nil_of_mem (List.mem_filter.mpr ⟨List.mem_map_of_mem stated, ?_⟩)
        simpa using left
      obtain ⟨names, cycle, -⟩ := Run.exists_cycle (Workflow.needs_of_valid valid opened mapped)
        (ran.waits orderly) remaining
      exact acyclic names cycle

def chain : String :=
  "on: push\njobs:\n  test:\n    needs: build\n    uses: x\n  build:\n    uses: x\n"

def knot : String :=
  "on: push\njobs:\n  a:\n    needs: b\n    uses: x\n  b:\n    needs: a\n    uses: x\n"

def oneFile (content : String) : Files := { directory := "/", texts := [("/w.yml", content)] }

def unasking : RunOptions := { workflow := "/w.yml", noJobPrompts := true }

theorem exit_zero_chain : ∃ path content workflow jobs,
    Workflow.fullPath (oneFile chain).directory unasking.workflow = .ok path ∧
      (oneFile chain).look path = .text content ∧ Workflow.load content = .ok workflow ∧
      Run.jobs workflow = .ok jobs ∧
      (∀ ran ∈ ((run (oneFile chain) unasking).perform {}).2.ledger.jobs,
        ran.status ≠ .failed) ∧
      ((∀ entry ∈ jobs, Job.isDone
        ((run (oneFile chain) unasking).perform {}).2.ledger.completed entry.1 = true) ↔
          Run.Acyclic jobs) :=
  exit_zero (perform_eq_of_toOption (by decide +kernel))

/-- The exit code can be zero while jobs are left. -/
theorem exit_zero_with_jobs_left : ∃ t workflow jobs,
    (run (oneFile knot) unasking).perform {} = (.ok 0, t) ∧ Workflow.load knot = .ok workflow ∧
      Run.jobs workflow = .ok jobs ∧
      ∃ entry ∈ jobs, Job.isDone t.ledger.completed entry.1 = false := by
  have left : ((Workflow.load knot).toOption.any fun workflow =>
      (Run.jobs workflow).toOption.any fun jobs => jobs.any fun entry => !Job.isDone
        ((run (oneFile knot) unasking).perform {}).2.ledger.completed entry.1) = true := by
    decide +kernel
  cases loaded : Workflow.load knot with
  | error fault =>
    rw [loaded] at left
    cases left
  | ok workflow =>
    rw [loaded] at left
    cases mapped : Run.jobs workflow with
    | error fault => simp [Except.toOption, mapped] at left
    | ok jobs =>
      have some : (jobs.any fun entry => !Job.isDone
          ((run (oneFile knot) unasking).perform {}).2.ledger.completed entry.1) = true := by
        simpa only [Except.toOption, mapped, Option.any_some] using left
      obtain ⟨entry, stated, undone⟩ := List.any_eq_true.mp some
      exact ⟨_, workflow, jobs, perform_eq_of_toOption (by decide +kernel), rfl, mapped, entry,
        stated, by simpa using undone⟩

end Rehearsal.CommandLine
