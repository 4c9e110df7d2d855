import Rehearsal.Proofs.Job.History
import Rehearsal.Proofs.Run.Closing

/-! Each kind of step looks for itself whether the run is a dry one. In a dry run none of them
executes a command, makes a file for outputs, pauses, or asks about a command, and no deed of a job
ends the dry run. -/

namespace Rehearsal

open Play

/-- Whether an event is the execution of a command that is given a file for outputs. -/
def Event.makesFile : Event → Bool
  | exec _ _ environment _ => Table.has Command.outputVariable environment
  | _ => false

def Event.isPause : Event → Bool
  | pause => true
  | _ => false

structure Event.Harmless (event : Event) : Prop where
  unexecuted : event.isExec = false
  unwritten : event.makesFile = false
  unpaused : event.isPause = false
  unasked : event.isOfCommand = false

namespace Deed

/-- The deeds that execute no command, do not pause, and ask nothing about a command. -/
def Harmless : Deed → Prop
  | execute _ _ _ | pause => False
  | ask question => ∀ answer, (Event.ask question answer).isOfCommand = false
  | _ => True

theorem Harmless.of_mem_events {d : Deed} (h : d.Harmless) {s : Session} {event : Event}
    (member : event ∈ d.events s) : event.Harmless := by
  cases d with
  | log =>
    obtain ⟨shown, rfl⟩ := eq_log_of_mem_logged member
    exact ⟨rfl, rfl, rfl, rfl⟩
  | ask =>
    rw [List.mem_singleton.mp member]
    exact ⟨rfl, rfl, rfl, h _⟩
  | echo =>
    rw [List.mem_singleton.mp member]
    exact ⟨rfl, rfl, rfl, rfl⟩
  | call =>
    obtain ⟨name, -, rfl⟩ := by simpa [events] using member
    exact ⟨rfl, rfl, rfl, rfl⟩
  | execute | pause => exact h.elim
  | _ => cases member

theorem Harmless.after_reports {d : Deed} (h : d.Harmless) (s : Session) :
    (d.after s).reports = s.reports := by
  cases d <;> first
    | exact h.elim
    | simp [after, play, Play.echo, Play.perform_discard, Job.skip, Job.failLast]

theorem Mocks.harmless {d : Deed} (h : d.Mocks) : d.Harmless := by
  cases d with
  | ask question =>
    have aside (answer : String) : (Event.ask question answer).Aside := ⟨rfl, h⟩
    exact fun answer => (aside answer).isOfCommand
  | execute | pause => exact h.elim
  | _ => trivial

theorem Between.harmless {job : Scalar} {d : Deed} (h : d.Between job) : d.Harmless := by
  cases d with
  | recordJob | start | skip => trivial
  | log | echo | ask | remember | register => exact Mocks.harmless h
  | _ => exact h.elim

end Deed

/-- That a session is dry, and nothing but harmless events lies between it and an earlier one. -/
structure DrySince (s t : Session) : Prop where
  dry : t.policy.dryRun = true
  reports : t.reports = s.reports
  trace : ∃ new, t.trace = new ++ s.trace ∧ ∀ event ∈ new, event.Harmless

namespace DrySince

variable {s t u : Session}

theorem refl (dry : s.policy.dryRun = true) : DrySince s s :=
  ⟨dry, rfl, [], rfl, List.forall_mem_nil _⟩

theorem deed {d : Deed} (harmless : d.Harmless) (since : DrySince s t) :
    DrySince s (d.after t) := by
  obtain ⟨new, added, own⟩ := since.trace
  refine ⟨?_, (harmless.after_reports t).trans since.reports, d.events t ++ new, ?_, ?_⟩
  · rw [Deed.after_dryRun, since.dry]
  · rw [Deed.after_trace, added, List.append_assoc]
  · exact List.forall_mem_append.mpr ⟨fun event => harmless.of_mem_events, own⟩

end DrySince

/-- That a play keeps a session dry, and is not ended by versions that do not match. -/
abbrev StaysDry {α : Type} (s : Session) (play : Play α) : Prop :=
  Maintains (DrySince s) (fun fault t => DrySince s t ∧ ∀ m, fault ≠ .mismatch m) play

variable {α : Type} {s : Session}

theorem dryness (s : Session) : Bears Deed.Harmless (DrySince s)
    fun fault t => DrySince s t ∧ ∀ m, fault ≠ .mismatch m where
  inquires kind := kind.mocks.harmless
  deed kind since := since.deed kind
  fault ordinary since := ⟨since, ordinary.ne_mismatch⟩

theorem log_staysDry (level : Level) (message : String) : StaysDry s (log level message) :=
  (dryness s).of_deed (.log level message) (fun _ => rfl) trivial (.log ..)

/-! ### Steps -/

namespace Step

variable {site : Site} {step : Value}

theorem fillValue_staysDry (scope : Scope) (stepId : String) (value : Value) :
    StaysDry s (fillValue scope stepId value) :=
  (dryness s).of_inquires (fillValue_inquires ..) (fillValue_ordinary ..)

theorem member_staysDry (name : String) (v : Value) : StaysDry s (adopt (member name v)) :=
  (dryness s).adopt (member_settles ..)

theorem runCommand_staysDry (command : Value) (stepId directory : String) :
    StaysDry s (runCommand site step command stepId directory) := by
  refine .bind (fillValue_staysDry ..) fun text => .get fun t since => ?_
  rw [if_pos since.dry]
  exact .bind (log_staysDry ..) fun _ => .pure _

theorem setUpTerraform_staysDry (directory : String) :
    StaysDry s (setUpTerraform site step directory) := by
  refine .bind (log_staysDry ..) fun _ => .bind (member_staysDry ..) fun arguments => ?_
  extract_lets checked
  have checks (version : Value) : StaysDry s (checked version) := by
    dsimp only [checked]
    split
    · exact log_staysDry ..
    · refine .bind (fillValue_staysDry ..) fun required => .bind (log_staysDry ..) fun _ =>
        .get fun t since => ?_
      rw [if_pos since.dry]
      exact log_staysDry ..
  split
  · exact .bind (member_staysDry ..) checks
  · exact .bind (.pure _) checks

theorem runMock_staysDry (stepId directory name : String) (m : Mock) :
    StaysDry s (runMock site step stepId directory name m) := by
  have bears := (dryness s).mono Deed.Inquires.mocks Deed.Mocks.harmless
  refine maintains_runMock bears (fun outputs => ?_) directory name m
  exact maintains_recordOutputs bears fun t since => since.deed trivial

theorem runAction_staysDry (action : Value) (stepId directory : String) :
    StaysDry s (runAction site step action stepId directory) := by
  refine .bind ((dryness s).fit _) fun action => .bind (log_staysDry ..) fun _ => ?_
  split
  · exact .bind (setUpTerraform_staysDry directory) fun _ => .pure _
  · split
    · exact .bind (log_staysDry ..) fun _ => .pure _
    · have bears := (dryness s).mono Deed.Inquires.mocks Deed.Mocks.harmless
      refine .bind (Registry.maintains_get bears action) fun m => ?_
      dsimp only
      split
      · exact .bind (log_staysDry ..) fun _ => .pure _
      · exact .bind (runMock_staysDry ..) fun _ => .pure _

theorem perform_staysDry (name stepId : String) :
    StaysDry s (perform site step name stepId) := by
  have placed : StaysDry s (directory site step stepId) :=
    (dryness s).of_inquires (directory_inquires ..) (directory_ordinary ..)
  refine .bind placed fun directory => .bind (member_staysDry ..) fun command =>
    .bind (member_staysDry ..) fun action => ?_
  dsimp only
  split
  · split
    · exact runAction_staysDry ..
    · refine .get fun t since => ?_
      rw [if_pos since.dry]
      exact .bind (log_staysDry ..) fun _ => .pure _
  · exact runCommand_staysDry ..

theorem run_staysDry (site : Site) (step : Value) (index : Nat) :
    StaysDry s (run site step index) := by
  have decided (frame : Condition.Frame) (condition : Value) :
      StaysDry s (Condition.holds frame condition) :=
    (dryness s).of_inquires (Condition.holds_inquires ..) (Condition.holds_ordinary ..)
  refine .bind ((dryness s).adopt (name_settles ..)) fun name =>
    .bind ((dryness s).adopt (id_settles ..)) fun stepId => .bind (log_staysDry ..) fun _ =>
    .bind (member_staysDry ..) fun condition => .bind (decided ..) fun holds => ?_
  split
  · exact perform_staysDry ..
  · exact .bind ((dryness s).fit _) fun _ => .bind (log_staysDry ..) fun _ => .pure _

end Step

/-! ### Jobs -/

namespace Job

theorem runStep_staysDry (site : Step.Site) (step : Value) (index : Nat) :
    StaysDry s (runStep site step index) := by
  have failed : StaysDry s failLast :=
    (dryness s).of_deed .failStep (fun _ => rfl) trivial (.change _)
  refine .bind ((dryness s).adopt (startedStep_settles ..)) fun started =>
    .bind ((dryness s).of_deed (.addStep started) (fun _ => rfl) trivial (.change _)) fun _ =>
    .bind (.tryCatch (Step.run_staysDry site step index) fun fault t left => ?_) fun outcome => ?_
  -- Versions do not fail to match, so the results are left as they are.
  · cases fault with
    | mismatch m => exact absurd rfl (left.2 m)
    | _ => exact left
  · dsimp only
    split
    · exact .bind failed fun _ => .pure _
    · refine .bind ?_ fun _ => .pure _
      exact (dryness s).of_deed (.endStep outcome.status) (fun _ => rfl) trivial (.change _)

theorem confirmed_staysDry (title : String) : StaysDry s (confirmed title) := by
  have asked : StaysDry s (confirm ("Do you want to run job '" ++ title ++ "'?")) :=
    (dryness s).of_deed (.ask (jobQuestion title))
      (fun t => by rw [perform_confirm]) (isOfCommand_jobQuestion title)
      (.bind (.ask _) fun _ => .pure _)
  exact maintains_confirmed (dryness s) asked trivial trivial fun u since => ⟨since, nofun⟩

theorem run_staysDry (workflow : Mapping) (root : String) (name : Scalar) (definition : Value) :
    StaysDry s (run workflow root name definition) := by
  have between {d : Deed} (h : d.Inquires) : d.Between name := h.between
  have bears := (dryness s).mono between Deed.Between.harmless
  apply maintains_run bears confirmed_staysDry
  intro site step index _ _
  exact runStep_staysDry site step index

end Job

namespace Run

theorem Opened.drySince {start : Session} (opened : Opened s start)
    (dry : s.policy.dryRun = true) : DrySince s start := by
  obtain ⟨records, toolchain, logs, same⟩ := opened.rest
  rw [same]
  refine ⟨dry, rfl, records, rfl, fun event member => ?_⟩
  obtain ⟨message, rfl⟩ := logs event member
  exact ⟨rfl, rfl, rfl, rfl⟩

/-- **Dry runs.** Whatever the workflow, the answers and the mocks are: in a dry run no command is
executed, no file for outputs is made, nothing pauses and no question about a command is asked, and
the run does not end because versions do not match. -/
theorem dry_runs_execute_nothing {s : Session} (dry : s.policy.dryRun = true) (workflow : Mapping)
    (root : String) :
    DrySince s ((execute workflow root).perform s).2 ∧
      ∀ m, ((execute workflow root).perform s).1 ≠ .error (.mismatch m) := by
  obtain ⟨start, turns, ended, last, opened, turned, closing⟩ := closing_of_execute workflow root s
  have left := turned.left (fun name job => Job.run_staysDry workflow _ name job)
    (fun name u since => ⟨since.dry, since.reports, since.trace⟩) (dryness s).fault
    (opened.drySince dry)
  generalize (execute workflow root).perform s = outcome at closing ⊢
  obtain ⟨result, t⟩ := outcome
  dsimp only at closing ⊢
  cases closing with
  | quit =>
    have said := left.1.deed (d := .log .info "Workflow execution stopped by user") trivial
    exact ⟨⟨said.dry, said.reports, said.trace⟩, nofun⟩
  | failed other => exact ⟨left.1, fun m same => left.2 m (Except.error.inj same)⟩
  | @ended _ settles deeds reports =>
    refine ⟨Deed.all_keep (fun own since => ?_) reports left, ?_⟩
    · obtain ⟨message, rfl⟩ := own
      exact since.deed trivial
    · rintro m rfl
      exact settles

/-- A job whose steps are a command, a setup of Terraform, another action and a placeholder. -/
def mixedSteps : Mapping :=
  [(.str "on", .str "push"), (.str "jobs", .map [(.str "a", .map [(.str "runs-on", .str "x"),
    (.str "steps", .list [
      .map [(.str "run", .str "make")],
      .map [(.str "uses", .str "hashicorp/setup-terraform@v3"),
        (.str "with", .map [(.str "terraform_version", .str "1.5.0")])],
      .map [(.str "uses", .str "acme/deploy@v1")],
      .map [(.str "name", .str "wait")]])])])]

/-- A session for a dry run in which the only job is confirmed and one action has a mock. -/
def rehearsing : Session where
  policy := { dryRun := true }
  registry := { known := [("acme/deploy", some { respond := fun _ _ => .ok (.map []) })] }

theorem dry_runs_execute_nothing_mixed :
    rehearsing.policy.dryRun = true ∧
      DrySince rehearsing ((execute mixedSteps "/").perform rehearsing).2 ∧
      (∀ m, ((execute mixedSteps "/").perform rehearsing).1 ≠ .error (.mismatch m)) ∧
      ((execute mixedSteps "/").perform rehearsing).2.ledger.steps.map (·.status) =
        [.success, .success, .success, .success] := by
  obtain ⟨since, matched⟩ := dry_runs_execute_nothing (s := rehearsing) rfl mixedSteps "/"
  exact ⟨rfl, since, matched, by decide +kernel⟩

end Run
end Rehearsal
