import Rehearsal.Proofs.Run.Schedule
import Rehearsal.Proofs.Step.Ends

/-! A valid workflow whose values can all be written is run to its end, unless the user quits, a
version does not match, or a condition meets an integer out of range. -/

namespace Rehearsal

open Play

namespace Job

variable {site : Step.Site} {job : Mapping}

theorem startedStep_ok {step : Value} (shaped : Step.Shaped step) (flawless : step.Flawless)
    (index : Nat) : ∃ started, startedStep step index = .ok started := by
  obtain ⟨name, named⟩ := shaped.name_ok flawless index
  obtain ⟨command, read, fine⟩ := shaped.member_ok flawless "run"
  unfold startedStep
  rw [named, read]
  simp only [bind, Except.bind]
  split
  · exact ⟨_, rfl⟩
  · cases written : command.expressionText with
    | ok text => exact ⟨_, rfl⟩
    | error u => exact (fine u (Value.hasFlaw_of_expressionText written)).elim

theorem runStep_passes {step : Value} (sound : site.Sound) (shaped : Step.Shaped step)
    (flawless : step.Flawless) (index : Nat) : Passes (runStep site step index) := by
  obtain ⟨started, ready⟩ := startedStep_ok shaped flawless index
  unfold runStep
  rw [ready]
  refine .bind_adopt nofun fun _ _ => .bind (steady_ready.modifyLedger _) fun _ _ =>
    .bind (.tryCatch (Step.run_passes sound shaped flawless index) fun fault expected => ?_)
      fun outcome _ => ?_
  · split
    · exact .bind (steady_ready.modifyLedger _) fun _ _ => .throw expected
    · exact .throw expected
  · split
    · exact .bind (steady_ready.modifyLedger _) fun _ _ => .pure trivial
    · exact .bind (steady_ready.modifyLedger _) fun _ _ => .pure trivial

theorem runSteps_passes (sound : site.Sound) {steps : List Value} (index : Nat)
    (shaped : ∀ step ∈ steps, Step.Shaped step ∧ step.Flawless) :
    Passes (runSteps site steps index) := by
  induction steps generalizing index with
  | nil => exact .pure trivial
  | cons step rest ih =>
    obtain ⟨own, others⟩ := List.forall_mem_cons.mp shaped
    refine .bind (runStep_passes sound own.1 own.2 index) fun goes _ => ?_
    split
    · exact ih _ others
    · exact .pure trivial

theorem fillVariables_passes (sound : site.Sound) {entries : Mapping}
    (within : (Value.map entries).Flawless) : Passes (fillVariables site.scope entries) := by
  induction entries with
  | nil => exact .pure trivial
  | cons entry rest ih =>
    obtain ⟨key, value⟩ := entry
    exact .bind (sound.supplied.plainKey (within.key List.mem_cons_self)) fun _ _ =>
      .bind (sound.fillValue_passes _ (within.entry List.mem_cons_self)) fun _ _ =>
        .bind (.mask _) fun _ _ => .bind (info_passes _) fun _ _ =>
          .bind (ih within.tail) fun _ _ => .pure trivial

theorem environment_passes (sound : site.Sound) (within : (Value.map job).Flawless) :
    Passes (environment site.scope job) := by
  unfold environment
  split
  · next entry entries found =>
    exact .bind (info_passes _) fun _ _ =>
      .bind (fillVariables_passes sound (within.find found)) fun _ _ => .pure trivial
  · exact .pure trivial

theorem recordEach_passes (sound : site.Sound) {entries : Mapping}
    (within : (Value.map entries).Flawless) : Passes (recordEach site.scope entries) := by
  induction entries with
  | nil => exact .pure trivial
  | cons entry rest ih =>
    obtain ⟨key, value⟩ := entry
    exact .bind (sound.supplied.resolveJobOutput sound.matrix (within.entry List.mem_cons_self))
      fun _ _ => .bind (sound.supplied.plainKey (within.key List.mem_cons_self)) fun _ _ =>
        .bind (steady_ready.modifyContext _) fun _ _ => .bind (.mask _) fun _ _ =>
          .bind (info_passes _) fun _ _ => ih within.tail

theorem recordOutputs_passes (sound : site.Sound) (within : (Value.map job).Flawless) :
    Passes (recordOutputs site.scope job) := by
  unfold recordOutputs
  split
  · next entry entries found =>
    obtain ⟨stated, looked, same⟩ := Option.map_eq_some_iff.mp found
    have opened := (within.find looked).opened
    rw [same] at opened
    exact .bind (info_passes _) fun _ _ => recordEach_passes sound opened
  · exact .pure trivial

theorem confirmed_passes (title : String) : Passes (confirmed title) := by
  refine .bind .get fun s _ => ?_
  dsimp only
  split
  · exact .pure trivial
  · refine .bind (steady_ready.confirm _) fun answer _ => ?_
    split
    · exact .bind (info_passes _) fun _ _ => .bind (steady_ready.modifyLedger _) fun _ _ =>
        .throw .quit
    · exact .bind (steady_ready.modifyPolicy _) fun _ _ => .bind (info_passes _) fun _ _ =>
        .pure trivial
    · exact .pure trivial
    · exact .bind (info_passes _) fun _ _ => .pure trivial

def Runs (job : Mapping) : Prop :=
  ∃ items, steps job = .ok items ∧ ∀ step ∈ items, Step.Shaped step

theorem steps_flawless {items : List Value} (within : (Value.map job).Flawless)
    (stated : steps job = .ok items) : ∀ step ∈ items, step.Flawless := by
  have opened := (within.findD (.str "steps")).opened
  unfold steps at stated
  dsimp only at stated
  split at stated
  · cases stated
    simp
  · split at stated
    · next listed same =>
      cases stated
      rw [same] at opened
      exact fun step member => opened.mem member
    all_goals cases stated

theorem perform_passes (sound : site.Sound) (within : (Value.map job).Flawless) (runs : Runs job)
    (title : String) : Passes (perform site job title) := by
  obtain ⟨items, stated, shaped⟩ := runs
  unfold perform
  rw [stated]
  refine .bind (environment_passes sound within) fun surroundings _ => ?_
  have surrounded : { site with jobEnvironment := surroundings }.Sound :=
    ⟨sound.workflow, sound.searched, sound.job, sound.definition, sound.matrix⟩
  refine .bind_adopt nofun fun steps same => ?_
  cases same
  have flawless := steps_flawless within stated
  refine .bind (runSteps_passes surrounded 0 fun step member =>
    ⟨shaped step member, flawless step member⟩) fun ended _ => ?_
  split
  · exact .bind (recordOutputs_passes surrounded within) fun _ _ => info_passes _
  · exact info_passes _

theorem displayName_ok (sound : site.Sound) :
    ∃ shown text, displayName site.job site.matrix = .ok shown ∧ shown.plain = .ok text := by
  obtain ⟨name, plain⟩ : ∃ name, site.job.plain = .ok name := Step.plain_ok sound.job
  unfold displayName
  split
  · exact ⟨_, name, rfl, plain⟩
  · rw [plain]
    cases described : Matrix.describe site.matrix with
    | ok text => exact ⟨_, _, rfl, rfl⟩
    | error u => exact (sound.matrix u (Json.hasFlaw_of_text described)).elim

theorem runInstance_passes (sound : site.Sound) (within : (Value.map job).Flawless)
    (runs : Runs job) : Passes (runInstance site job) := by
  obtain ⟨shown, text, displayed, written⟩ := displayName_ok sound
  have stated := within.findD (.str "if")
  unfold runInstance
  rw [displayed]
  refine .bind_fit nofun fun _ same => ?_
  cases same
  rw [written]
  refine .bind (steady_ready.modifyLedger _) fun _ _ => .bind_fit nofun fun title _ =>
    .bind (info_passes _) fun _ _ => ?_
  extract_lets runner condition decided told
  have decides : Passes (decided ()) := by
    refine .bind (confirmed_passes title) fun agreed _ => ?_
    split
    · refine .bind (holds_passes sound.workflow sound.searched sound.matrix stated)
        fun holds _ => ?_
      split
      · exact perform_passes sound within runs title
      · exact .bind (sound.supplied.plain stated) fun _ _ => .bind (info_passes _) fun _ _ =>
          steady_ready.modifyLedger _
    · exact steady_ready.modifyLedger _
  have tells : Passes (told ()) := by
    dsimp only [told]
    split
    · exact .bind (sound.supplied.json sound.matrix _) fun _ _ => .bind (info_passes _) fun _ _ =>
        decides
    · exact decides
  split
  · exact .bind (sound.supplied.plain (within.findD _)) fun _ _ => .bind (info_passes _) fun _ _ =>
      tells
  · exact tells

theorem runInstances_passes (within : (Value.map job).Flawless) (runs : Runs job) (count : Nat)
    {instances : List Mapping} (number : Nat)
    (sound : ∀ bindings ∈ instances, { site with matrix := bindings }.Sound) :
    Passes (runInstances site job count instances number) := by
  induction instances generalizing number with
  | nil => exact .pure trivial
  | cons bindings rest ih =>
    obtain ⟨own, others⟩ := List.forall_mem_cons.mp sound
    unfold runInstances
    extract_lets ran
    have runs : Passes (ran ()) :=
      .bind (runInstance_passes own within runs) fun _ _ => ih _ others
    split
    · exact .bind (info_passes _) fun _ _ => runs
    · exact runs

theorem run_passes {workflow : Mapping} (workflow_within : (Value.map workflow).Flawless)
    (searched : ∀ name fault, environmentValue? workflow name ≠ .error fault) (root : String)
    {name : Scalar} (writable : (Value.scalar name).Flawless) {definition : Value}
    (within : definition.Flawless) (runs : Runs (definition.mapping?.getD [])) :
    Passes (run workflow root name definition) := by
  have members : (Value.map (definition.mapping?.getD [])).Flawless := by
    cases opened : definition.mapping? with
    | none => exact .map (by simp) (by simp)
    | some entries => exact within.mapping opened
  have empty : (Value.map []).Flawless := .map (by simp) (by simp)
  have sound {bindings : Mapping} (matrix : (Value.map bindings).Flawless) :
      Step.Site.Sound ⟨workflow, root, name, .map (definition.mapping?.getD []), bindings, []⟩ :=
    ⟨workflow_within, searched, writable, members, matrix⟩
  have bare := sound empty
  refine .bind (bare.supplied.expand empty writable ((members.findD _).fieldD _))
    fun instances each => ?_
  exact runInstances_passes members runs _ _ fun bindings member => sound (each bindings member)

end Job

namespace Run

variable {workflow jobs : Mapping} {root : String}

structure SoundJob (entry : Scalar × Value) : Prop where
  name : (Value.scalar entry.1).Flawless
  within : entry.2.Flawless
  needs : ∃ needed, Job.needs entry.2 = .ok needed
  runs : Job.Runs (entry.2.mapping?.getD [])

theorem visit_passes (within : (Value.map workflow).Flawless)
    (searched : ∀ name fault, environmentValue? workflow name ≠ .error fault)
    {entry : Scalar × Value} (sound : SoundJob entry) :
    Passes (visit workflow root entry.1 entry.2) := by
  obtain ⟨needed, told⟩ := sound.needs
  refine .bind .get fun s _ => ?_
  rw [told]
  dsimp only
  split
  · refine .bind_adopt nofun fun _ _ => ?_
    split
    · exact .bind (Job.run_passes within searched root sound.name sound.within sound.runs)
        fun _ _ => steady_ready.modifyLedger _
    · exact .pure trivial
  · exact .pure trivial

theorem pass_passes (within : (Value.map workflow).Flawless)
    (searched : ∀ name fault, environmentValue? workflow name ≠ .error fault)
    (sound : ∀ entry ∈ jobs, SoundJob entry) : Passes (pass workflow root jobs) := by
  induction jobs with
  | nil => exact .pure trivial
  | cons entry rest ih =>
    obtain ⟨own, later⟩ := List.forall_mem_cons.mp sound
    exact .bind (visit_passes within searched own) fun _ _ => ih later

theorem stringNames_ok {names : List Scalar} (named : ∀ name ∈ names, ∃ text, name = .str text) :
    ∃ texts, stringNames names = .ok texts := by
  induction names with
  | nil => exact ⟨[], rfl⟩
  | cons name rest ih =>
    obtain ⟨⟨text, rfl⟩, others⟩ := List.forall_mem_cons.mp named
    obtain ⟨texts, same⟩ := ih others
    exact ⟨text :: texts, by simp [stringNames, same, bind, Except.bind, pure, Except.pure]⟩

theorem stringNames_error {names : List Scalar} {fault : Fault}
    (failed : stringNames names = .error fault) : fault = .wrongKind := by
  fun_induction stringNames names with
  | case1 => cases failed
  | case2 name rest ih =>
    cases others : stringNames rest with
    | ok texts => simp [others, bind, Except.bind, pure, Except.pure] at failed
    | error other =>
      rw [others] at failed ih
      cases failed
      exact ih rfl
  | case3 => exact (Except.error.inj failed).symm

/-- The faults with which a run of the jobs of a valid workflow may end: the names of jobs that
cannot run have to be strings. -/
def Stops (jobs : Mapping) (fault : Fault) : Prop :=
  fault.Expected ∨ fault = .wrongKind ∧ ¬Named jobs

theorem reportStuck_stops (jobs : Mapping) :
    Yields Session.Ready (Stops jobs) (fun _ => True) (reportStuck jobs) := by
  refine .bind .get fun s _ => .bind_adopt (fun fault failed => ?_) fun _ _ =>
    .bind (steady_ready.warning _) fun _ _ => steady_ready.warning _
  refine .inr ⟨stringNames_error failed, fun named => ?_⟩
  have strings : ∀ name ∈ Job.remaining jobs s.ledger.completed, ∃ text, name = .str text := by
    intro name member
    obtain ⟨entry, stated, rfl⟩ := List.mem_map.mp (List.mem_filter.mp member).1
    exact named entry stated
  obtain ⟨texts, same⟩ := stringNames_ok strings
  rw [same] at failed
  cases failed

theorem passesFrom_stops (within : (Value.map workflow).Flawless)
    (searched : ∀ name fault, environmentValue? workflow name ≠ .error fault)
    (sound : ∀ entry ∈ jobs, SoundJob entry) (s : Session) (ready : s.Ready) :
    (passesFrom workflow root jobs s).2.Ready ∧
      Ends (Stops jobs) (fun _ => True) (passesFrom workflow root jobs s).1 := by
  have passes : Passes (pass workflow root jobs) := pass_passes within searched sound
  fun_induction passesFrom workflow root jobs s with
  | case1 s left fault t failed =>
    have ends := passes.outcome s ready
    rw [failed] at ends
    exact ⟨ends.1, .inl ends.2⟩
  | case2 s left t passed more ih =>
    have ends := passes.outcome s ready
    rw [passed] at ends
    exact ih ends.1
  | case3 s left t passed same =>
    have ends := passes.outcome s ready
    rw [passed] at ends
    exact (reportStuck_stops jobs).outcome t ends.1
  | case4 s all => exact ⟨ready, trivial⟩

theorem title_ok (within : (Value.map workflow).Flawless) : ∃ name, title workflow = .ok name := by
  unfold title
  dsimp only
  split
  · exact Step.plain_ok (within.findD _)
  · exact ⟨_, rfl⟩

theorem detectToolchain_passes : Passes detectToolchain := by
  refine .bind .get fun s _ => ?_
  split
  · refine .bind (steady_ready.modifyContext _) fun _ _ => ?_
    split
    · exact info_passes _
    · exact info_passes _
  · exact .pure trivial

theorem execute_stops (within : (Value.map workflow).Flawless)
    (searched : ∀ name fault, environmentValue? workflow name ≠ .error fault)
    (mapped : Run.jobs workflow = .ok jobs) (sound : ∀ entry ∈ jobs, SoundJob entry) :
    Yields Session.Ready (Stops jobs) (fun _ => True) (execute workflow root) := by
  obtain ⟨name, named⟩ := title_ok within
  have opens : Yields Session.Ready (Stops jobs) (fun _ => True) (openLedger workflow) := by
    unfold openLedger
    rw [named]
    exact .bind (steady_ready.modifyLedger _) fun _ _ => .bind_fit nofun fun _ _ =>
      steady_ready.modifyLedger _
  have runs : Yields Session.Ready (Stops jobs) (fun _ => True)
      (runJobs workflow (Path.tidy root)) := by
    unfold runJobs
    rw [mapped]
    refine .bind_adopt nofun fun _ same => ?_
    cases same
    exact ⟨fun s ready => passesFrom_stops within searched sound s ready⟩
  have stops {fault : Fault} (expected : Stops jobs fault) :
      Yields Session.Ready (Stops jobs) (fun _ => True) (stop fault) := by
    unfold stop
    dsimp only
    split
    · exact .bind (steady_ready.info _) fun _ _ => .bind (steady_ready.modifyLedger _) fun _ _ =>
        .throw expected
    · exact .throw expected
  exact .bind opens fun _ _ => .bind (detectToolchain_passes.mono (fun _ => id) fun _ => .inl)
    fun _ _ => .tryCatch runs fun _ => stops

theorem jobs_flawless {jobs : Mapping} (within : (Value.map workflow).Flawless)
    (mapped : Run.jobs workflow = .ok jobs) : (Value.map jobs).Flawless := by
  have opened := (within.findD (.str "jobs")).opened
  unfold Run.jobs at mapped
  dsimp only at mapped
  split at mapped
  · cases mapped
    exact .map (by simp) (by simp)
  · split at mapped
    · next stated same =>
      cases mapped
      rwa [same] at opened
    all_goals cases mapped

/-- **Valid workflows.** A run of a valid workflow whose values can all be written comes to its end,
provided that the steps of jobs that use workflows are as the steps of other jobs have to be. It can
only be ended early by the user, by versions that do not match, by an integer out of range in a
condition, and by the report of the jobs that cannot run if not all jobs have strings for names. -/
theorem valid_workflows_end {document : Value} (valid : Workflow.problems document = .ok [])
    (opened : document.mapping? = some workflow) (mapped : Run.jobs workflow = .ok jobs)
    (flawless : document.Flawless)
    (called : ∀ entry ∈ jobs, (entry.2.field? "uses").isSome = true →
      ∀ steps, entry.2.field? "steps" = some steps →
        ∃ path, Workflow.checkSteps path steps = .ok [])
    {s : Session} (ready : s.Ready) :
    ((execute workflow root).perform s).1 = .ok () ∨
      ∃ fault, ((execute workflow root).perform s).1 = .error fault ∧
        (fault = .quit ∨ (∃ m, fault = .mismatch m) ∨ fault = .unfit .integerOutOfRange ∨
          fault = .wrongKind ∧ ¬Named jobs) := by
  have within := flawless.mapping opened
  have members := jobs_flawless within mapped
  have sound : ∀ entry ∈ jobs, SoundJob entry := by
    intro entry member
    obtain ⟨stated, same, checked⟩ := Workflow.jobs_of_valid valid opened
    cases mapped.symm.trans same
    obtain ⟨path, fine⟩ := checked entry member
    obtain ⟨needed, told, -⟩ := Workflow.needs_of_checkJob fine
    exact ⟨members.key member, members.entry member, ⟨needed, told⟩,
      Workflow.steps_of_checkJob fine (called entry member)⟩
  have searched := Workflow.searched_of_valid valid opened
  have stops : Yields Session.Ready (Stops jobs) (fun _ => True) (execute workflow root) :=
    execute_stops within searched mapped sound
  have ends := (stops.outcome s ready).2
  cases outcome : ((execute workflow root).perform s).1 with
  | ok u => exact .inl rfl
  | error fault =>
    rw [outcome] at ends
    refine .inr ⟨fault, rfl, ?_⟩
    rcases ends with expected | stuck
    · cases expected with
      | quit => exact .inl rfl
      | mismatch m => exact .inr (.inl ⟨m, rfl⟩)
      | vast => exact .inr (.inr (.inl rfl))
    · exact .inr (.inr (.inr stuck))

/-- A job with a step, and a job that uses a workflow and has steps as well. -/
def mixedJobs : Mapping :=
  [(.str "a", .map [(.str "runs-on", .str "x"),
      (.str "steps", .list [.map [(.str "run", .str "true")]])]),
    (.str "b", .map [(.str "uses", .str "x"),
      (.str "steps", .list [.map [(.str "uses", .str "y")]])])]

def mixedWorkflow : Mapping := [(.str "on", .str "push"), (.str "jobs", .map mixedJobs)]

theorem mixedWorkflow_flawless : (Value.map mixedWorkflow).Flawless := by
  intro u
  cases u <;> decide

theorem unasked_ready : unasked.Ready where
  readable _ member := nomatch member
  clear _ member := nomatch member
  unknown _ member := nomatch member
  unmocked _ member := nomatch member

theorem valid_workflows_end_mixed :
    ((execute mixedWorkflow "/").perform unasked).1 = .ok () ∨
      ∃ fault, ((execute mixedWorkflow "/").perform unasked).1 = .error fault ∧
        (fault = .quit ∨ (∃ m, fault = .mismatch m) ∨ fault = .unfit .integerOutOfRange ∨
          fault = .wrongKind ∧ ¬Named mixedJobs) := by
  have valid : Workflow.problems (.map mixedWorkflow) = .ok [] := rfl
  refine valid_workflows_end valid rfl rfl mixedWorkflow_flawless ?_ unasked_ready
  intro entry member uses steps stated
  rcases List.mem_cons.mp member with rfl | member
  · cases uses
  · obtain rfl := List.mem_singleton.mp member
    cases stated
    exact ⟨"", rfl⟩

def unlistedSteps : Mapping :=
  [(.str "on", .str "push"),
    (.str "jobs", .map [(.str "a", .map [(.str "uses", .str "x"), (.str "steps", .int 5)])])]

/-- The steps of a job that uses a workflow are read, though not checked. -/
theorem unlisted_steps_fail : Workflow.problems (.map unlistedSteps) = .ok [] ∧
    (match ((execute unlistedSteps "/").perform unasked).1 with
      | .error .wrongKind => true
      | _ => false) = true :=
  ⟨rfl, by decide +kernel⟩

end Run
end Rehearsal
