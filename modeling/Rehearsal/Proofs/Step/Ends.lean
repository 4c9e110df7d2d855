import Rehearsal.Proofs.Condition.Decided
import Rehearsal.Proofs.Workflow.Structure

/-! A step of a valid workflow whose values can all be written ends with an outcome, unless the user
quits, a version does not match, or a condition meets an integer out of range. -/

namespace Rehearsal

open Play

/-- A value that has no flaw at all. -/
abbrev Value.Flawless (v : Value) : Prop := v.Within fun _ => False

/-- That a report says nothing about a version that cannot be understood: if its output is JSON with
a version, this is a text, and integers in it are not too long. -/
structure Report.Clear (r : Report) : Prop where
  short : Json.parse r.output ≠ .error .integerTooLong
  text : ∀ output version, Json.parse r.output = .ok output →
    output.field? "terraform_version" = some version → ∃ text, version = .str text

/-- That all that a run gets from outside is as it is meant to be: answers are readable, reports are
clear, and there are no mocks. -/
structure Session.Ready (s : Session) : Prop where
  readable : s.answers.Readable
  clear : ∀ report ∈ s.reports, report.Clear
  unknown : ∀ entry ∈ s.registry.known, entry.2.isNone = true
  unmocked : ∀ entry ∈ s.registry.files, ∀ m, entry.2 ≠ .mock m

theorem steady_ready : Steady Session.Ready where
  apart s t answers reports registry ready := by
    constructor
    · exact answers ▸ ready.readable
    · exact reports ▸ ready.clear
    · exact registry ▸ ready.unknown
    · exact registry ▸ ready.unmocked
  asked s t text answers reports registry ready := by
    constructor
    · rw [answers]
      exact ready.readable.next text
    · exact reports ▸ ready.clear
    · exact registry ▸ ready.unknown
    · exact registry ▸ ready.unmocked
  readable ready := ready.readable

/-- The faults with which a run of a valid workflow may end. -/
inductive Fault.Expected : Fault → Prop
  | quit : Expected .quit
  | mismatch (m : VersionMismatch) : Expected (.mismatch m)
  | vast : Expected (.unfit .integerOutOfRange)

/-- Plays that come to their end from sessions that are ready, but for the faults that may be
expected. -/
abbrev Passes {α : Type} (play : Play α) : Prop :=
  Yields Session.Ready Fault.Expected (fun _ => True) play

theorem info_passes (message : String) : Passes (info message) := steady_ready.info _

theorem error_passes (message : String) : Passes (error message) := steady_ready.error _

theorem warning_passes (message : String) : Passes (warning message) := steady_ready.warning _

theorem clear_empty : ({} : Report).Clear := by
  have malformed : Json.parse "" = .error .malformed := rfl
  constructor
  · rw [malformed]
    exact nofun
  · intro output version parsed
    rw [malformed] at parsed
    cases parsed

theorem execute_passes (command directory : String) (environment : Table String String) :
    Yields Session.Ready Fault.Expected Report.Clear (execute command directory environment) := by
  refine .of_perform fun s ready => ⟨_, _, perform_execute command directory environment s, ?_, ?_⟩
  · exact ⟨ready.readable, fun report member => ready.clear report (List.mem_of_mem_tail member),
      ready.unknown, ready.unmocked⟩
  · cases reports : s.reports with
    | nil => exact clear_empty
    | cons report rest =>
      refine ready.clear report ?_
      rw [reports]
      exact List.mem_cons_self

/-! ### Mocks -/

namespace Registry

theorem load_passes {r : Registry} (unmocked : ∀ entry ∈ r.files, ∀ m, entry.2 ≠ .mock m)
    (name : String) :
    Yields Session.Ready Fault.Expected (fun m => m.isNone = true) (r.load name) := by
  unfold load
  split
  · exact .pure rfl
  · refine .bind (info_passes _) fun _ _ => ?_
    split
    · exact .bind (info_passes _) fun _ _ => .bind (info_passes _) fun _ _ => .pure rfl
    · next file found =>
      refine .bind (info_passes _) fun _ _ => ?_
      split
      · next m =>
        obtain ⟨key, member, -⟩ := Table.mem_of_find?_eq_some found
        exact absurd rfl (unmocked _ member m)
      · exact .bind (warning_passes _) fun _ _ => .bind (warning_passes _) fun _ _ => .pure rfl
      · exact .bind (warning_passes _) fun _ _ => .pure rfl

theorem keep_passes (name : String) {m : Option Mock} (none : m.isNone = true) :
    Passes (modify fun s => { s with registry := s.registry.keep name m } : Play PUnit) := by
  refine .of_perform fun s ready => ⟨_, _, perform_modify _ s, ?_, trivial⟩
  refine ⟨ready.readable, ready.clear, ?_, ready.unmocked⟩
  exact Table.forall_mem_put (fun _ _ _ => none) none ready.unknown

theorem get_passes (action : String) :
    Yields Session.Ready Fault.Expected (fun m => m.isNone = true) (Registry.get action) := by
  refine .bind .get fun s ready => ?_
  dsimp only
  split
  · next m found =>
    obtain ⟨key, member, -⟩ := Table.mem_of_find?_eq_some found
    exact .pure (ready.unknown _ member)
  · exact .bind (load_passes ready.unmocked _) fun m none =>
      .bind (keep_passes _ none) fun _ _ => .pure none

end Registry

/-! ### Versions -/

namespace Terraform

theorem localVersion_passes (directory : String) :
    Yields Session.Ready Fault.Expected (fun v => ∃ text, v = .str text)
      (localVersion directory) := by
  refine .bind (execute_passes ..) fun report clear => ?_
  split
  · exact .bind (error_passes _) fun _ _ => .bind (error_passes _) fun _ _ =>
      .throw (.mismatch _)
  · dsimp only
    split
    · next long => exact absurd long clear.short
    · exact .throw (.mismatch _)
    · next output parsed =>
      split
      · exact .throw (.mismatch _)
      · next version found =>
        obtain ⟨text, rfl⟩ := clear.text output version parsed found
        exact .bind_fit nofun fun _ _ => .bind (info_passes _) fun _ _ => .pure ⟨text, rfl⟩

theorem check_passes (required directory : String) : Passes (check required directory) := by
  refine .bind (localVersion_passes _) fun version told => ?_
  obtain ⟨text, rfl⟩ := told
  refine .bind_fit nofun fun _ _ => .bind_adopt nofun fun _ _ => ?_
  split
  · exact .bind (error_passes _) fun _ _ => .bind (error_passes _) fun _ _ =>
      .bind (error_passes _) fun _ _ => .bind (error_passes _) fun _ _ => .throw (.mismatch _)
  · exact .bind (info_passes _) fun _ _ => .pure trivial

end Terraform

/-! ### Sites -/

/-- That the values of a site can be written and the variables of its workflow be searched. -/
structure Step.Site.Sound (site : Step.Site) : Prop where
  workflow : (Value.map site.workflow).Flawless
  searched : ∀ name fault, environmentValue? site.workflow name ≠ .error fault
  job : (Value.scalar site.job).Flawless
  definition : site.definition.Flawless
  matrix : (Value.map site.matrix).Flawless

theorem supplied_of_sound {workflow : Mapping} (within : (Value.map workflow).Flawless)
    (searched : ∀ name fault, environmentValue? workflow name ≠ .error fault)
    {Allowed : Fault → Prop} {Flaw : Unfit → Prop} (tolerates : ∀ u, Flaw u → Allowed (.unfit u)) :
    Supplied Session.Ready Allowed Flaw workflow where
  steady := steady_ready
  tolerates := tolerates
  within := (within.findD _).mono fun _ => False.elim
  searched name fault failed := absurd failed (searched name fault)

namespace Step

variable {site : Site}

theorem Site.Sound.supplied (sound : site.Sound) :
    Supplied Session.Ready Fault.Expected (fun _ => False) site.scope.workflow :=
  supplied_of_sound sound.workflow sound.searched fun _ => False.elim

end Step

theorem holds_passes {frame : Condition.Frame} (workflow : (Value.map frame.workflow).Flawless)
    (searched : ∀ name fault, environmentValue? frame.workflow name ≠ .error fault)
    (matrix : (Value.map frame.matrix).Flawless) {condition : Value}
    (within : condition.Flawless) : Passes (Condition.holds frame condition) := by
  have supplied : Supplied Session.Ready (Fault.Inner (· = .integerOutOfRange))
      (· = .integerOutOfRange) frame.workflow :=
    supplied_of_sound workflow searched fun _ own => .flaw own
  constructor
  intro s ready
  have bindings : ∀ entry ∈ frame.matrix, entry.2.Sound (· = .integerOutOfRange) :=
    fun entry member => ⟨(matrix.entry member).mono fun _ => False.elim, fun _ _ _ => rfl⟩
  obtain ⟨still, ends⟩ := Condition.holds_ends supplied bindings
    (within.mono fun _ => False.elim) (fun _ _ _ _ _ => rfl) ready
  refine ⟨still, ?_⟩
  cases outcome : ((Condition.holds frame condition).perform s).1 with
  | ok b => trivial
  | error fault =>
    rw [outcome] at ends
    obtain ⟨u, rfl, -, rfl⟩ := ends
    exact .vast

namespace Step

/-! ### Members of steps -/

variable {site : Site} {step : Value}

theorem Shaped.member_ok (shaped : Shaped step) (flawless : step.Flawless) (name : String) :
    ∃ v, member name step = .ok v ∧ v.Flawless := by
  obtain ⟨entries, same, -⟩ := shaped.mapping
  have opened := flawless.opened
  unfold member
  rw [same] at opened ⊢
  exact ⟨_, rfl, opened.findD _⟩

theorem plain_ok {v : Value} (flawless : v.Flawless) : ∃ text, v.plain = .ok text := by
  cases written : v.plain with
  | ok text => exact ⟨text, rfl⟩
  | error u => exact (flawless u (Value.hasFlaw_of_plain written)).elim

theorem Shaped.name_ok (shaped : Shaped step) (flawless : step.Flawless) (index : Nat) :
    ∃ text, name step index = .ok text := by
  obtain ⟨stated, read, fine⟩ := shaped.member_ok flawless "name"
  obtain ⟨text, written⟩ := plain_ok fine
  unfold name
  rw [read]
  by_cases present : stated.isPresent = true
  · exact ⟨text, by simp [bind, Except.bind, present, written, orUnfit]⟩
  · exact ⟨_, by simp [bind, Except.bind, present, pure, Except.pure]; rfl⟩

theorem Shaped.id_ok (shaped : Shaped step) (flawless : step.Flawless) (index : Nat) :
    ∃ text, id step index = .ok text := by
  obtain ⟨stated, read, fine⟩ := shaped.member_ok flawless "id"
  obtain ⟨text, written⟩ := plain_ok fine
  obtain ⟨own, named⟩ := shaped.name_ok flawless index
  unfold id
  rw [read]
  by_cases present : stated.isPresent = true
  · exact ⟨text, by simp [bind, Except.bind, present, written, orUnfit]⟩
  · exact ⟨slug own, by simp [bind, Except.bind, present, named, pure, Except.pure]⟩

theorem Shaped.bind_member {α : Type} (shaped : Shaped step) (flawless : step.Flawless)
    {name : String} {next : Value → Play α} (rest : ∀ v, v.Flawless → Passes (next v)) :
    Passes (adopt (member name step) >>= next) := by
  obtain ⟨v, read, fine⟩ := shaped.member_ok flawless name
  rw [read]
  exact .bind_adopt nofun fun _ same => Except.ok.inj same ▸ rest v fine

/-! ### Commands -/

theorem Site.Sound.fillValue_passes (sound : site.Sound) (name : String) {value : Value}
    (within : value.Flawless) : Passes (fillValue site.scope name value) :=
  sound.supplied.fillValue sound.matrix name within

theorem directory_passes (sound : site.Sound) (shaped : Shaped step) (flawless : step.Flawless)
    (stepId : String) : Passes (directory site step stepId) := by
  have defaults {definition : Value} (within : definition.Flawless) :
      (defaultDirectory definition).Flawless :=
    ((within.fieldD "defaults").fieldD "run").fieldD "working-directory"
  refine shaped.bind_member flawless fun own fine => ?_
  dsimp only
  split
  · exact .pure trivial
  · next value found =>
    have stated : ∀ v ∈ [own, defaultDirectory site.definition,
        defaultDirectory (.map site.workflow)], v.Flawless := by
      simp only [List.forall_mem_cons]
      exact ⟨fine, defaults sound.definition, defaults sound.workflow, by simp⟩
    exact .bind (sound.fillValue_passes _ (stated value (List.mem_of_find?_eq_some found)))
      fun _ _ => .pure trivial

theorem fillEntries_passes (sound : site.Sound) (stepId : String) {entries : Mapping}
    (within : (Value.map entries).Flawless) :
    Passes (fillEntries site.scope stepId entries) := by
  induction entries with
  | nil => exact .pure trivial
  | cons entry rest ih =>
    obtain ⟨key, value⟩ := entry
    exact .bind (sound.supplied.plainKey (within.key List.mem_cons_self)) fun _ _ =>
      .bind (sound.fillValue_passes _ (within.entry List.mem_cons_self)) fun _ _ =>
        .bind (ih within.tail) fun _ _ => .pure trivial

theorem statedVariables_passes (sound : site.Sound) (stepId : String) {environment : Value}
    (within : environment.Flawless) :
    Passes (statedVariables site.scope stepId environment) := by
  have opened := within.opened
  unfold statedVariables
  split
  · next entries same =>
    rw [same] at opened
    exact .bind (fillEntries_passes sound _ opened) fun _ _ => .pure trivial
  · exact .pure trivial

theorem environment_passes (sound : site.Sound) (shaped : Shaped step)
    (flawless : step.Flawless) (stepId : String) : Passes (environment site step stepId) :=
  .bind (statedVariables_passes sound _ (sound.workflow.findD _)) fun _ _ =>
    shaped.bind_member flawless fun _ fine =>
      .bind (statedVariables_passes sound _ fine) fun _ _ => .pure trivial

theorem goesOn_passes (answer : Confirmation) : Passes (goesOn answer) := by
  unfold goesOn
  split
  · exact .bind (info_passes _) fun _ _ => .throw .quit
  · exact .bind (steady_ready.modifyPolicy _) fun _ _ => .bind (info_passes _) fun _ _ =>
      .pure trivial
  · exact .pure trivial
  · exact .pure trivial

theorem commandAllowed_passes : Passes commandAllowed := by
  refine .bind .get fun s _ => ?_
  split
  · exact .pure trivial
  · exact .bind (steady_ready.confirm _) fun _ _ => goesOn_passes _

theorem goesOnAfterFailure_passes : Passes goesOnAfterFailure := by
  refine .bind .get fun s _ => ?_
  split
  · exact .bind (warning_passes _) fun _ _ => .pure trivial
  · refine .bind (steady_ready.confirm _) fun _ _ => .bind (goesOn_passes _) fun goes _ => ?_
    split
    · exact .pure trivial
    · exact .bind (info_passes _) fun _ _ => .pure trivial

theorem showOutput_passes (level : Level) (title text : String) :
    Passes (showOutput level title text) := by
  unfold showOutput
  split
  · exact .pure trivial
  · exact .bind .get fun s _ => steady_ready.log _ _

theorem logOutputs_passes (outputs : List (String × String)) : Passes (logOutputs outputs) := by
  induction outputs with
  | nil => exact .pure trivial
  | cons output rest ih =>
    exact .bind (.mask _) fun _ _ => .bind (info_passes _) fun _ _ => ih

theorem recordOutputs_passes (job : Scalar) (stepId : String) (outputs : Outputs) :
    Passes (recordOutputs job stepId outputs) :=
  .bind (steady_ready.modifyContext _) fun _ _ => logOutputs_passes _

theorem finish_passes (site : Site) (stepId : String) (report : Report) :
    Passes (finish site stepId report) := by
  refine .bind (showOutput_passes ..) fun _ _ => .bind (showOutput_passes ..) fun _ _ => ?_
  extract_lets ended
  have ends : Passes (ended ()) := by
    dsimp only [ended]
    split
    · exact .bind (info_passes _) fun _ _ => .pure trivial
    · exact .bind (error_passes _) fun _ _ => .bind goesOnAfterFailure_passes fun _ _ =>
        .pure trivial
  split
  · exact .bind (recordOutputs_passes ..) fun _ _ => ends
  · exact ends

theorem runCommand_passes (sound : site.Sound) (shaped : Shaped step) (flawless : step.Flawless)
    {command : Value} (within : command.Flawless) (stepId directory : String) :
    Passes (runCommand site step command stepId directory) := by
  refine .bind (sound.fillValue_passes _ within) fun text _ => .bind .get fun s _ => ?_
  split
  · exact .bind (info_passes _) fun _ _ => .pure trivial
  · refine .bind (info_passes _) fun _ _ => .bind (info_passes _) fun _ _ =>
      .bind commandAllowed_passes fun allowed _ => ?_
    split
    · exact .bind (environment_passes sound shaped flawless _) fun _ _ =>
        .bind (execute_passes ..) fun _ _ => finish_passes ..
    · exact .bind (info_passes _) fun _ _ => .pure trivial

/-! ### Actions -/

theorem Shaped.arguments (shaped : Shaped step) (flawless : step.Flawless) {arguments : Value}
    (read : Step.member "with" step = .ok arguments) (present : arguments.isPresent = true) :
    ∃ version, Step.member "terraform_version" arguments = .ok version ∧ version.Flawless := by
  obtain ⟨entries, same, mapping⟩ := shaped.mapping
  have opened := flawless.opened
  rw [same] at opened
  unfold Step.member at read
  rw [same] at read
  dsimp only at read
  cases stated : Table.find? (.str "with") entries with
  | none =>
    rw [stated] at read
    cases read
    cases present
  | some value =>
    rw [stated] at read
    obtain rfl : value = arguments := Except.ok.inj read
    obtain ⟨inputs, inside⟩ := mapping value stated
    have content := (opened.find stated).opened
    rw [inside] at content
    unfold Step.member
    rw [inside]
    exact ⟨_, rfl, content.findD _⟩

theorem setUpTerraform_passes (sound : site.Sound) (shaped : Shaped step)
    (flawless : step.Flawless) (directory : String) :
    Passes (setUpTerraform site step directory) := by
  refine .bind (info_passes _) fun _ _ => .bind_adopt ?_ fun arguments read => ?_
  · intro fault failed
    obtain ⟨v, read, -⟩ := shaped.member_ok flawless "with"
    rw [read] at failed
    cases failed
  · extract_lets required
    have requires (version : Value) (within : version.Flawless) : Passes (required version) := by
      dsimp only [required]
      split
      · exact warning_passes _
      · refine .bind (sound.fillValue_passes _ within) fun text _ =>
          .bind (info_passes _) fun _ _ => .bind .get fun s _ => ?_
        split
        · exact info_passes _
        · exact .bind (info_passes _) fun _ _ => .bind (Terraform.check_passes ..) fun _ _ =>
            .pure trivial
    split
    · next present =>
      obtain ⟨version, stated, within⟩ := shaped.arguments flawless read present
      rw [stated]
      exact .bind_adopt nofun fun v same => Except.ok.inj same ▸ requires version within
    · exact .bind (.pure .null) requires

theorem runAction_passes (sound : site.Sound) (shaped : Shaped step) (flawless : step.Flawless)
    {action : Value} (within : action.Flawless) (stepId directory : String) :
    Passes (runAction site step action stepId directory) := by
  refine .bind (sound.supplied.plain within) fun text _ => .bind (info_passes _) fun _ _ => ?_
  split
  · exact .bind (setUpTerraform_passes sound shaped flawless _) fun _ _ => .pure trivial
  · split
    · exact .bind (info_passes _) fun _ _ => .pure trivial
    · refine .bind (Registry.get_passes _) fun m none => ?_
      cases m with
      | none => exact .bind (info_passes _) fun _ _ => .pure trivial
      | some m => cases none

/-! ### Whole steps -/

theorem perform_passes (sound : site.Sound) (shaped : Shaped step) (flawless : step.Flawless)
    (name stepId : String) : Passes (perform site step name stepId) := by
  refine .bind (directory_passes sound shaped flawless _) fun directory _ =>
    shaped.bind_member flawless fun command runs =>
    shaped.bind_member flawless fun action uses => ?_
  split
  · split
    · exact runAction_passes sound shaped flawless uses _ _
    · refine .bind .get fun s _ => ?_
      split
      · exact .bind (info_passes _) fun _ _ => .pure trivial
      · exact .bind (info_passes _) fun _ _ => .bind (steady_ready.record _) fun _ _ =>
          .pure trivial
  · exact runCommand_passes sound shaped flawless runs _ _

theorem run_passes (sound : site.Sound) (shaped : Shaped step) (flawless : step.Flawless)
    (index : Nat) : Passes (run site step index) := by
  obtain ⟨name, named⟩ := shaped.name_ok flawless index
  obtain ⟨stepId, identified⟩ := shaped.id_ok flawless index
  unfold run
  rw [named, identified]
  refine .bind_adopt nofun fun _ _ => .bind_adopt nofun fun _ _ => .bind (info_passes _) fun _ _ =>
    shaped.bind_member flawless fun condition within => ?_
  refine .bind (holds_passes sound.workflow sound.searched sound.matrix within) fun holds _ => ?_
  split
  · exact perform_passes sound shaped flawless _ _
  · exact .bind (sound.supplied.plain within) fun _ _ => .bind (info_passes _) fun _ _ =>
      .pure trivial

end Step
end Rehearsal
