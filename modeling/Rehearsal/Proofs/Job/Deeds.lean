import Rehearsal.Proofs.Play.Resolving

/-! Running a job touches neither the list of the jobs that are done nor the outputs that another
job recorded, and it never says that no job could run: `run_ofJob`. The expressions that it resolves
stand in the texts of the job, in the variables and the default directory of the workflow, or are
references of conditions: `run_consults`. -/

namespace Rehearsal

open Play

variable {job : Scalar} {Allowed : String → Prop}

theorem warning_consults {message : String} (other : Deed.saysStuck .warning message = false) :
    Consults (Deed.Works job) Allowed (warning message) := .log other

theorem confirm_consults (question : String) :
    Consults (Deed.OfStep job) Allowed (confirm question) :=
  .bind (.ask trivial (.inl (isConfirmation_append question))) fun _ => .pure _

/-! ### Actions -/

namespace Registry

theorem load_consults (r : Registry) (name : String) :
    Consults (Deed.Works job) Allowed (r.load name) := by
  unfold load
  split
  · exact .pure _
  · refine .bind (info_consults _).works fun _ => ?_
    split
    · exact .bind (info_consults _).works fun _ => .bind (info_consults _).works fun _ => .pure _
    · refine .bind (info_consults _).works fun _ => ?_
      split
      · exact .pure _
      · refine .bind (warning_consults ?_) fun _ => .bind (warning_consults ?_) fun _ => .pure _
        · simp [Deed.saysStuck, Text.startsWith, Text.after?]
        · simp [Deed.saysStuck, Text.startsWith, Text.after?]
      · refine .bind (warning_consults ?_) fun _ => .pure _
        simp [Deed.saysStuck, Text.startsWith, Text.after?]

theorem get_consults (action : String) :
    Consults (Deed.Works job) Allowed (Registry.get action) := by
  refine .bind .get fun s => ?_
  dsimp only
  split
  · exact .pure _
  · refine .bind (load_consults ..) fun m => .bind ?_ fun _ => .pure _
    exact .deed (.keepMock (Action.name action) m) (fun _ => rfl) trivial trivial

theorem call_consults (m : Mock) (invocation : Invocation) :
    Consults (Deed.Works job) Allowed (Registry.call m invocation) :=
  .deed (.call m invocation) (fun s => (perform_discard _ s).symm) trivial trivial

end Registry

namespace Terraform

theorem localVersion_consults (directory : String) :
    Consults (Deed.Works job) Allowed (localVersion directory) := by
  refine .bind (.deed (.execute ..) (fun s => (perform_discard _ s).symm) trivial trivial)
    fun report => ?_
  split
  · exact .bind (error_consults _).works fun _ => .bind (error_consults _).works fun _ => .throw _
  · dsimp only
    split
    · exact .throw _
    · exact .throw _
    · split
      · exact .throw _
      · exact .bind (.fit _) fun _ => .bind (info_consults _).works fun _ => .pure _

theorem check_consults (required directory : String) :
    Consults (Deed.Works job) Allowed (check required directory) := by
  refine .bind (localVersion_consults _) fun version => .bind (.fit _) fun text =>
    .bind (.adopt _) fun digits => ?_
  split
  · exact .bind (error_consults _).works fun _ => .bind (error_consults _).works fun _ =>
      .bind (error_consults _).works fun _ => .bind (error_consults _).works fun _ => .throw _
  · exact .bind (info_consults _).works fun _ => .pure _

end Terraform

/-! ### Steps -/

namespace Step

/-- That what a site states for all steps names expressions of some sort only. -/
structure Site.Uses (Allowed : String → Prop) (site : Site) : Prop where
  environment : ((Table.find? (.str "env") site.workflow).getD .null).Uses Allowed
  directory : (defaultDirectory (.map site.workflow)).Uses Allowed
  definition : site.definition.Uses Allowed
  refers : Condition.Refers Allowed

theorem defaultDirectory_uses {definition : Value} (uses : definition.Uses Allowed) :
    (defaultDirectory definition).Uses Allowed := ((uses.fieldD _).fieldD _).fieldD _

theorem Site.Uses.all (site : Site) : site.Uses fun _ => True :=
  ⟨.all _, .all _, .all _, .all⟩

variable {site : Site} {step : Value}

theorem fillEntries_consults (scope : Scope) (stepId : String) {entries : List (Scalar × Value)}
    (uses : ∀ entry ∈ entries, entry.2.Uses Allowed) :
    Consults Deed.Inquires Allowed (fillEntries scope stepId entries) := by
  induction entries with
  | nil => exact .pure _
  | cons entry rest ih =>
    obtain ⟨own, others⟩ := List.forall_mem_cons.mp uses
    exact .bind (.fit _) fun _ => .bind (fillValue_consults scope stepId own) fun _ =>
      .bind (ih others) fun _ => .pure _

theorem statedVariables_consults (scope : Scope) (stepId : String) {environment : Value}
    (uses : environment.Uses Allowed) :
    Consults Deed.Inquires Allowed (statedVariables scope stepId environment) := by
  have content := uses.opened
  unfold statedVariables
  split
  · next entries same =>
    rw [same] at content
    exact .bind (fillEntries_consults scope stepId fun _ => content.entry) fun _ => .pure _
  · exact .pure _

theorem directory_consults (sited : site.Uses Allowed) (uses : step.Uses Allowed)
    (stepId : String) : Consults Deed.Inquires Allowed (directory site step stepId) := by
  refine .bind_adopt fun own stated => ?_
  dsimp only
  split
  · exact .pure _
  · next value found =>
    have fills : value.Uses Allowed := by
      have member := List.mem_of_find?_eq_some found
      simp only [List.mem_cons, List.not_mem_nil, or_false] at member
      rcases member with rfl | rfl | rfl
      · exact uses.member stated
      · exact defaultDirectory_uses sited.definition
      · exact sited.directory
    exact .bind (fillValue_consults _ _ fills) fun _ => .pure _

theorem environment_consults (sited : site.Uses Allowed) (uses : step.Uses Allowed)
    (stepId : String) : Consults Deed.Inquires Allowed (environment site step stepId) :=
  .bind (statedVariables_consults _ _ sited.environment) fun _ => .bind_adopt fun _ stated =>
    .bind (statedVariables_consults _ _ (uses.member stated)) fun _ => .pure _

theorem inputs_consults (uses : step.Uses Allowed) (stepId : String) :
    Consults Deed.Inquires Allowed (inputs site step stepId) := by
  refine .bind_adopt fun arguments stated => ?_
  have content := (uses.member stated).opened
  split
  · exact .pure _
  · split
    · next entries same =>
      rw [same] at content
      exact .bind (fillEntries_consults _ _ fun _ => content.entry) fun _ => .pure _
    · exact .throw _

theorem goesOn_consults (answer : Confirmation) :
    Consults (Deed.OfStep job) Allowed (goesOn answer) := by
  cases answer with
  | quit => exact .bind (info_consults _).inStep fun _ => .throw _
  | all =>
    refine .bind (.deed .allowCommands (fun _ => rfl) trivial trivial) fun _ => ?_
    exact .bind (info_consults _).inStep fun _ => .pure _
  | _ => exact .pure _

theorem commandAllowed_consults : Consults (Deed.OfStep job) Allowed commandAllowed := by
  refine .bind .get fun s => ?_
  split
  · exact .pure _
  · exact .bind (confirm_consults _) fun _ => goesOn_consults _

theorem goesOnAfterFailure_consults : Consults (Deed.OfStep job) Allowed goesOnAfterFailure := by
  refine .bind .get fun s => ?_
  split
  · refine .bind (warning_consults ?_).ofStep fun _ => .pure _
    simp [Deed.saysStuck, Text.startsWith, Text.after?]
  · refine .bind (confirm_consults _) fun _ => .bind (goesOn_consults _) fun goes => ?_
    split
    · exact .pure _
    · exact .bind (info_consults _).inStep fun _ => .pure _

theorem showOutput_consults {level : Level} {title : String} (text : String)
    (other : ∀ shown, Deed.saysStuck level (title ++ "\n" ++ shown) = false) :
    Consults (Deed.Works job) Allowed (showOutput level title text) := by
  unfold showOutput
  split
  · exact .pure _
  · exact .bind .get fun _ => .log (other _)

theorem logOutputs_consults (outputs : List (String × String)) :
    Consults (Deed.Works job) Allowed (logOutputs outputs) := by
  induction outputs with
  | nil => exact .pure _
  | cons output rest ih =>
    exact .bind (.mask _) fun _ => .bind (info_consults _).works fun _ => ih

theorem recordOutputs_consults (stepId : String) (outputs : Outputs) :
    Consults (Deed.Works job) Allowed (recordOutputs job stepId outputs) :=
  .bind (.deed (.recordStep job stepId outputs) (fun _ => rfl) rfl trivial) fun _ =>
    logOutputs_consults _

theorem finish_consults (site : Site) (stepId : String) (report : Report) :
    Consults (Deed.OfStep site.job) Allowed (finish site stepId report) := by
  refine .bind (showOutput_consults _ ?_).ofStep fun _ =>
    .bind (showOutput_consults _ ?_).ofStep fun _ => ?_
  · simp [Deed.saysStuck]
  · simp [Deed.saysStuck, Text.startsWith, Text.after?]
  · extract_lets ended
    have ends (u : PUnit) : Consults (Deed.OfStep site.job) Allowed (ended u) := by
      dsimp only [ended]
      split
      · exact .bind (info_consults _).inStep fun _ => .pure _
      · exact .bind (error_consults _).inStep fun _ =>
          .bind goesOnAfterFailure_consults fun _ => .pure _
    split
    · exact .bind (recordOutputs_consults ..).ofStep ends
    · exact ends ()

theorem runCommand_consults (sited : site.Uses Allowed) (uses : step.Uses Allowed) {command : Value}
    (stated : command.Uses Allowed) (stepId directory : String) :
    Consults (Deed.OfStep site.job) Allowed (runCommand site step command stepId directory) := by
  refine .bind (fillValue_consults _ _ stated).inStep fun text => .bind .get fun s => ?_
  split
  · exact .bind (info_consults _).inStep fun _ => .pure _
  · refine .bind (info_consults _).inStep fun _ => .bind (info_consults _).inStep fun _ =>
      .bind commandAllowed_consults fun allowed => ?_
    split
    · refine .bind (environment_consults sited uses _).inStep fun surroundings =>
        .bind ?_ fun _ => finish_consults ..
      exact .deed (.execute ..) (fun s => (perform_discard _ s).symm) trivial trivial
    · exact .bind (info_consults _).inStep fun _ => .pure _

theorem setUpTerraform_consults (uses : step.Uses Allowed) (directory : String) :
    Consults (Deed.Works job) Allowed (setUpTerraform site step directory) := by
  refine .bind (info_consults _).works fun _ => .bind_adopt fun arguments stated => ?_
  extract_lets checked
  have checks (version : Value) (uses : version.Uses Allowed) :
      Consults (Deed.Works job) Allowed (checked version) := by
    dsimp only [checked]
    split
    · refine warning_consults ?_
      simp [Deed.saysStuck, Text.startsWith, Text.after?]
    · refine .bind (fillValue_consults _ _ uses).works fun required =>
        .bind (info_consults _).works fun _ => .bind .get fun s => ?_
      split
      · exact (info_consults _).works
      · exact .bind (info_consults _).works fun _ =>
          .bind (Terraform.check_consults ..) fun _ => .pure _
  split
  · exact .bind_adopt fun version found => checks version ((uses.member stated).member found)
  · rw [pure_bind]
    exact checks _ .null

theorem runMock_consults (uses : step.Uses Allowed) (stepId directory name : String) (m : Mock) :
    Consults (Deed.Works site.job) Allowed (runMock site step stepId directory name m) := by
  refine .bind (inputs_consults uses _).works fun given => .bind .get fun s =>
    .bind (Registry.call_consults ..) fun outcome => ?_
  split
  · refine warning_consults ?_
    simp [Deed.saysStuck, Text.startsWith, Text.after?]
  · exact .bind (.fit _) fun _ => .bind (recordOutputs_consults ..) fun _ => (info_consults _).works
  · refine warning_consults ?_
    simp [Deed.saysStuck, Text.startsWith, Text.after?]
  · exact .throw _

theorem runAction_consults (uses : step.Uses Allowed) (action : Value) (stepId directory : String) :
    Consults (Deed.Works site.job) Allowed (runAction site step action stepId directory) := by
  refine .bind (.fit _) fun action => .bind (info_consults _).works fun _ => ?_
  split
  · exact .bind (setUpTerraform_consults uses _) fun _ => .pure _
  · split
    · exact .bind (info_consults _).works fun _ => .pure _
    · refine .bind (Registry.get_consults _) fun found => ?_
      dsimp only
      split
      · exact .bind (info_consults _).works fun _ => .pure _
      · exact .bind (runMock_consults uses ..) fun _ => .pure _

theorem perform_consults (sited : site.Uses Allowed) (uses : step.Uses Allowed)
    (name stepId : String) :
    Consults (Deed.OfStep site.job) Allowed (perform site step name stepId) := by
  refine .bind (directory_consults sited uses _).inStep fun directory =>
    .bind_adopt fun command stated => .bind (.adopt _) fun action => ?_
  dsimp only
  split
  · split
    · exact (runAction_consults uses ..).ofStep
    · refine .bind .get fun s => ?_
      split
      · exact .bind (info_consults _).inStep fun _ => .pure _
      · refine .bind (info_consults _).inStep fun _ => .bind ?_ fun _ => .pure _
        exact .deed .pause (fun _ => rfl) trivial trivial
  · exact runCommand_consults sited uses (uses.member stated) ..

theorem run_consults (sited : site.Uses Allowed) (uses : step.Uses Allowed) (index : Nat) :
    Consults (Deed.OfStep site.job) Allowed (run site step index) := by
  refine .bind (.adopt _) fun name => .bind (.adopt _) fun stepId =>
    .bind (info_consults _).inStep fun _ => .bind (.adopt _) fun condition =>
    .bind (Condition.holds_consults sited.refers ..).inStep fun holds => ?_
  split
  · exact perform_consults sited uses ..
  · exact .bind (.fit _) fun _ => .bind (info_consults _).inStep fun _ => .pure _

end Step

/-! ### Jobs -/

namespace Job

open Step (Site)

variable {site : Site} {definition : Mapping}

theorem confirmed_consults (title : String) :
    Consults (Deed.OfJob job) Allowed (confirmed title) := by
  refine .bind .get fun s => ?_
  dsimp only
  split
  · exact .pure _
  · refine .bind (confirm_consults _).ofJob fun answer => ?_
    cases answer with
    | quit =>
      refine .bind (info_consults _).inJob fun _ => .bind ?_ fun _ => .throw _
      exact .deed .skip (fun _ => rfl) trivial trivial
    | all =>
      refine .bind (.deed .allowJobs (fun _ => rfl) trivial trivial) fun _ => ?_
      exact .bind (info_consults _).inJob fun _ => .pure _
    | yes => exact .pure _
    | no => exact .bind (info_consults _).inJob fun _ => .pure _
    | skip => exact .bind (info_consults _).inJob fun _ => .pure _

theorem fillVariables_consults (scope : Scope) {entries : List (Scalar × Value)}
    (uses : ∀ entry ∈ entries, entry.2.Uses Allowed) :
    Consults Deed.Inquires Allowed (fillVariables scope entries) := by
  induction entries with
  | nil => exact .pure _
  | cons entry rest ih =>
    obtain ⟨own, others⟩ := List.forall_mem_cons.mp uses
    exact .bind (.fit _) fun _ => .bind (fillValue_consults _ _ own) fun _ =>
      .bind (.mask _) fun _ => .bind (info_consults _) fun _ => .bind (ih others) fun _ => .pure _

theorem environment_consults (scope : Scope) (uses : (Value.map definition).Uses Allowed) :
    Consults Deed.Inquires Allowed (environment scope definition) := by
  unfold environment
  split
  · next found =>
    exact .bind (info_consults _) fun _ =>
      .bind (fillVariables_consults scope fun _ => (uses.find found).entry) fun _ => .pure _
  · exact .pure _

theorem recordEach_consults (scope : Scope) {outputs : List (Scalar × Value)}
    (uses : ∀ output ∈ outputs, output.2.Uses Allowed) :
    Consults (Deed.OfJob scope.job) Allowed (recordEach scope outputs) := by
  induction outputs with
  | nil => exact .pure _
  | cons output rest ih =>
    obtain ⟨own, others⟩ := List.forall_mem_cons.mp uses
    refine .bind (resolveJobOutput_consults scope own).inJob fun text => .bind (.fit _) fun name =>
      .bind ?_ fun _ => .bind (.mask _) fun _ => .bind (info_consults _).inJob fun _ => ih others
    exact .deed (.recordJob scope.job name text) (fun _ => rfl) rfl trivial

theorem recordOutputs_consults (scope : Scope) (uses : (Value.map definition).Uses Allowed) :
    Consults (Deed.OfJob scope.job) Allowed (recordOutputs scope definition) := by
  unfold recordOutputs
  split
  · next entry entries found =>
    obtain ⟨stated, same, content⟩ := Option.map_eq_some_iff.mp found
    have inside := (uses.find same).opened
    rw [content] at inside
    exact .bind (info_consults _).inJob fun _ => recordEach_consults scope fun _ => inside.entry
  · exact .pure _

theorem failLast_consults : Consults (Deed.OfJob job) Allowed failLast :=
  .deed .failStep (fun _ => rfl) trivial trivial

theorem runStep_consults (sited : site.Uses Allowed) {step : Value} (uses : step.Uses Allowed)
    (index : Nat) : Consults (Deed.OfJob site.job) Allowed (runStep site step index) := by
  refine .bind (.adopt _) fun started => .bind ?_ fun _ =>
    .bind (.tryCatch (Step.run_consults sited uses _).ofJob fun fault => ?_) fun outcome => ?_
  · exact .deed (.addStep started) (fun _ => rfl) trivial trivial
  · dsimp only
    split
    · exact .bind failLast_consults fun _ => .throw _
    · exact .throw _
  · dsimp only
    split
    · exact .bind failLast_consults fun _ => .pure _
    · refine .bind ?_ fun _ => .pure _
      exact .deed (.endStep outcome.status) (fun _ => rfl) trivial trivial

theorem runSteps_consults (sited : site.Uses Allowed) {steps : List Value}
    (uses : ∀ step ∈ steps, step.Uses Allowed) (index : Nat) :
    Consults (Deed.OfJob site.job) Allowed (runSteps site steps index) := by
  induction steps generalizing index with
  | nil => exact .pure _
  | cons step rest ih =>
    obtain ⟨own, others⟩ := List.forall_mem_cons.mp uses
    refine .bind (runStep_consults sited own _) fun goes => ?_
    split
    · exact ih others _
    · exact .pure _

theorem steps_uses {items : List Value} (uses : (Value.map definition).Uses Allowed)
    (stated : steps definition = .ok items) : ∀ step ∈ items, step.Uses Allowed := by
  have inside := uses.findD (.str "steps")
  unfold steps at stated
  dsimp only at stated
  split at stated
  · cases stated
    nofun
  · have content := inside.opened
    split at stated
    · next same =>
      cases stated
      rw [same] at content
      exact fun _ => content.item
    all_goals cases stated

theorem perform_consults (sited : site.Uses Allowed) (uses : (Value.map definition).Uses Allowed)
    (title : String) :
    Consults (Deed.OfJob site.job) Allowed (perform site definition title) := by
  refine .bind (environment_consults _ uses).inJob fun surroundings =>
    .bind_adopt fun items stated => .bind ?_ fun ended => ?_
  · have surrounded : ({ site with jobEnvironment := surroundings } : Site).Uses Allowed :=
      ⟨sited.environment, sited.directory, sited.definition, sited.refers⟩
    exact runSteps_consults surrounded (steps_uses uses stated) 0
  · split
    · exact .bind (recordOutputs_consults site.scope uses) fun _ => (info_consults _).inJob
    · exact (info_consults _).inJob

theorem runInstance_consults (sited : site.Uses Allowed)
    (uses : (Value.map definition).Uses Allowed) :
    Consults (Deed.OfJob site.job) Allowed (runInstance site definition) := by
  refine .bind_fit fun name named => .bind ?_ fun _ => .bind (.fit _) fun title =>
    .bind (info_consults _).inJob fun _ => ?_
  · exact .deed (.start name) (fun _ => rfl) ⟨site.matrix, named⟩ trivial
  extract_lets stated condition entered shown
  have enters (u : PUnit) : Consults (Deed.OfJob site.job) Allowed (entered u) := by
    have skipped : Consults (Deed.OfJob site.job) Allowed skip :=
      .deed .skip (fun _ => rfl) trivial trivial
    refine .bind (confirmed_consults _) fun confirmed => ?_
    split
    · refine .bind (Condition.holds_consults sited.refers ..).inJob fun holds => ?_
      split
      · exact perform_consults sited uses _
      · exact .bind (.fit _) fun _ => .bind (info_consults _).inJob fun _ => skipped
    · exact skipped
  have shows (u : PUnit) : Consults (Deed.OfJob site.job) Allowed (shown u) := by
    dsimp only [shown]
    split
    · exact .bind (.fit _) fun _ => .bind (info_consults _).inJob enters
    · exact enters ()
  split
  · exact .bind (.fit _) fun _ => .bind (info_consults _).inJob shows
  · exact shows ()

theorem runInstances_consults (sited : site.Uses Allowed)
    (uses : (Value.map definition).Uses Allowed) (count : Nat) (instances : List Mapping)
    (number : Nat) :
    Consults (Deed.OfJob site.job) Allowed
      (runInstances site definition count instances number) := by
  induction instances generalizing number with
  | nil => exact .pure _
  | cons bindings rest ih =>
    unfold runInstances
    extract_lets ran
    have bound : ({ site with matrix := bindings } : Site).Uses Allowed :=
      ⟨sited.environment, sited.directory, sited.definition, sited.refers⟩
    have own := runInstance_consults bound uses
    have runs (u : PUnit) : Consults (Deed.OfJob site.job) Allowed (ran u) :=
      .bind own fun _ => ih _
    split
    · exact .bind (info_consults _).inJob runs
    · exact runs ()

def matrix (definition : Mapping) : Value :=
  (((Table.find? (.str "strategy") definition).getD .null).field? "matrix").getD .null

/-- Everything that running a job does to a session is a deed of that job or resolves an expression
in its texts. -/
theorem run_consults {workflow : Mapping} {root : String} {name : Scalar} {job : Value}
    {definition : Mapping} (same : job.mapping?.getD [] = definition)
    (sited : (⟨workflow, root, name, .map definition, [], []⟩ : Site).Uses Allowed)
    (decodes : Matrix.Decodes Allowed ⟨workflow, name, []⟩ (matrix definition)) :
    Consults (Deed.OfJob name) Allowed (run workflow root name job) := by
  subst same
  have uses := sited.definition
  exact .bind (Matrix.expand_consults _ ((uses.findD _).fieldD _) decodes).inJob fun instances =>
    runInstances_consults sited uses ..

end Job

/-! ### The deeds of these plays -/

theorem info_works (message : String) : Does (Deed.Works job) (info message) :=
  Does.works (info_consults message).inquires

namespace Step

theorem directory_inquires (site : Site) (step : Value) (stepId : String) :
    Does Deed.Inquires (directory site step stepId) :=
  (directory_consults (.all site) (.all step) stepId).inquires

theorem environment_inquires (site : Site) (step : Value) (stepId : String) :
    Does Deed.Inquires (environment site step stepId) :=
  (environment_consults (.all site) (.all step) stepId).inquires

theorem runAction_works (site : Site) (step action : Value) (stepId directory : String) :
    Does (Deed.Works site.job) (runAction site step action stepId directory) :=
  (runAction_consults (.all step) action stepId directory).does fun _ => Deed.Inquires.works

theorem run_ofStep (site : Site) (step : Value) (index : Nat) :
    Does (Deed.OfStep site.job) (run site step index) :=
  (run_consults (.all site) (.all step) index).does fun _ own => own.works.ofStep

end Step

namespace Job

theorem environment_inquires (scope : Scope) (definition : Mapping) :
    Does Deed.Inquires (environment scope definition) :=
  (environment_consults scope (.all _)).inquires

theorem runStep_ofJob (site : Step.Site) (step : Value) (index : Nat) :
    Does (Deed.OfJob site.job) (runStep site step index) :=
  (runStep_consults (.all site) (.all step) index).does fun _ own => own.works.ofStep.ofJob

theorem run_ofJob (workflow : Mapping) (root : String) (name : Scalar) (definition : Value) :
    Does (Deed.OfJob name) (run workflow root name definition) :=
  (run_consults rfl (.all _) fun _ _ _ value _ _ => .all value).does
    fun _ own => own.works.ofStep.ofJob

end Job
end Rehearsal
