import Rehearsal.Proofs.Job.Maintained
import Rehearsal.Proofs.Step.Preview

/-! A job comes to the same in a dry run as in a real one, with the same answers, results and
outputs, provided that the variables of its commands are plain: `run_rehearses`. -/

namespace Rehearsal.Job

open Play
open Step (Site)

variable {start : Session} {site : Site} {definition : Mapping}

def Plain (definition : Mapping) : Prop := ∀ step ∈ statedSteps definition, Step.PlainStep step

theorem skip_rehearses : Rehearses start skip skip := .of_deed .skip (fun _ => rfl) trivial

theorem failLast_rehearses : Rehearses start failLast failLast :=
  .of_deed .failStep (fun _ => rfl) trivial

/-! ### Confirmations, variables and outputs -/

theorem confirmed_rehearses (title : String) :
    Rehearses start (confirmed title) (confirmed title) := by
  refine .get_bind (fun previews => ?_) fun s => ?_
  · obtain ⟨reports, trace, rfl⟩ := previews.same
    rfl
  dsimp only
  split
  · exact .pure _
  refine .bind (.bind (.ask _) fun _ => .pure _) fun answer => ?_
  cases answer with
  | quit => exact .bind (.info _) fun _ => .bind skip_rehearses fun _ => .throw _
  | all =>
    refine .bind ?_ fun _ => .bind (.info _) fun _ => .pure _
    exact .of_deed .allowJobs (fun _ => rfl) trivial
  | yes => exact .pure _
  | no | skip => exact .bind (.info _) fun _ => .pure _

theorem environment_rehearses (scope : Scope) :
    Rehearses start (environment scope definition) (environment scope definition) := by
  have fills (entries : List (Scalar × Value)) :
      Rehearses start (fillVariables scope entries) (fillVariables scope entries) := by
    induction entries with
    | nil => exact .pure _
    | cons entry rest ih =>
      exact .bind (.fit _) fun _ => .bind (Step.fillValue_rehearses ..) fun _ =>
        .bind (.mask _) fun _ => .bind (.info _) fun _ => .bind ih fun _ => .pure _
  unfold environment
  split
  · exact .bind (.info _) fun _ => .bind (fills _) fun _ => .pure _
  · exact .pure _

theorem recordOutputs_rehearses (scope : Scope) :
    Rehearses start (recordOutputs scope definition) (recordOutputs scope definition) := by
  have resolves (value : Value) :
      Rehearses start (resolveJobOutput scope value) (resolveJobOutput scope value) :=
    .of_alike (.of_does (resolveJobOutput_consults scope (.all value)).inquires)
      (resolveJobOutput_alike (likens_of_previews _ start) value)
  have records (outputs : List (Scalar × Value)) :
      Rehearses start (recordEach scope outputs) (recordEach scope outputs) := by
    induction outputs with
    | nil => exact .pure _
    | cons output rest ih =>
      refine .bind (resolves _) fun text => .bind (.fit _) fun name => .bind ?_ fun _ =>
        .bind (.mask _) fun _ => .bind (.info _) fun _ => ih
      exact .of_deed (.recordJob scope.job name text) (fun _ => rfl) trivial
  unfold recordOutputs
  split
  · exact .bind (.info _) fun _ => records _
  · exact .pure _

/-! ### Steps -/

theorem runStep_rehearses (around : Step.PlainWorkflow site.workflow) {step : Value}
    (plain : Step.PlainStep step) (index : Nat) :
    Rehearses start (runStep site step index) (runStep site step index) := by
  refine .bind (.adopt _) fun started => .bind ?_ fun _ =>
    .bind (.tryCatch (Step.run_rehearses around plain index) (fun fault => ?_) fun m s => rfl)
      fun outcome => ?_
  · exact .of_deed (.addStep started) (fun _ => rfl) trivial
  · dsimp only
    split
    · exact .bind failLast_rehearses fun _ => .throw _
    · exact .throw _
  · dsimp only
    split
    · exact .bind failLast_rehearses fun _ => .pure _
    · refine .bind ?_ fun _ => .pure _
      exact .of_deed (.endStep outcome.status) (fun _ => rfl) trivial

theorem runSteps_rehearses (around : Step.PlainWorkflow site.workflow) {items : List Value}
    (plain : ∀ step ∈ items, Step.PlainStep step) (index : Nat) :
    Rehearses start (runSteps site items index) (runSteps site items index) := by
  induction items generalizing index with
  | nil => exact .pure _
  | cons step rest ih =>
    obtain ⟨own, others⟩ := List.forall_mem_cons.mp plain
    refine .bind (runStep_rehearses around own index) fun goes => ?_
    split
    · exact ih others _
    · exact .pure _

/-! ### Instances -/

theorem perform_rehearses (around : Step.PlainWorkflow site.workflow) (plain : Plain definition)
    (title : String) :
    Rehearses start (perform site definition title) (perform site definition title) := by
  refine .bind (environment_rehearses _) fun surroundings => .bind_adopt fun items listed => ?_
  have surrounded : Step.PlainWorkflow { site with jobEnvironment := surroundings }.workflow :=
    around
  refine .bind (runSteps_rehearses surrounded (fun step member => plain step ?_) 0) fun ended => ?_
  · rwa [statedSteps, listed]
  · split
    · exact .bind (recordOutputs_rehearses _) fun _ => .info _
    · exact .info _

theorem runInstance_rehearses (around : Step.PlainWorkflow site.workflow)
    (plain : Plain definition) :
    Rehearses start (runInstance site definition) (runInstance site definition) := by
  refine .bind (.fit _) fun name => .bind ?_ fun _ => .bind (.fit _) fun title =>
    .bind (.info _) fun _ => ?_
  · exact .of_deed (.start name) (fun _ => rfl) trivial
  extract_lets stated condition decided told
  have decides : Rehearses start (decided ()) (decided ()) := by
    refine .bind (confirmed_rehearses title) fun agreed => ?_
    split
    · refine .bind (Step.holds_rehearses ..) fun holds => ?_
      split
      · exact perform_rehearses around plain title
      · exact .bind (.fit _) fun _ => .bind (.info _) fun _ => skip_rehearses
    · exact skip_rehearses
  have tells : Rehearses start (told ()) (told ()) := by
    dsimp only [told]
    split
    · exact .bind (.fit _) fun _ => .bind (.info _) fun _ => decides
    · exact decides
  split
  · exact .bind (.fit _) fun _ => .bind (.info _) fun _ => tells
  · exact tells

theorem runInstances_rehearses (around : Step.PlainWorkflow site.workflow)
    (plain : Plain definition) (count : Nat) (instances : List Mapping) (number : Nat) :
    Rehearses start (runInstances site definition count instances number)
      (runInstances site definition count instances number) := by
  induction instances generalizing number with
  | nil => exact .pure _
  | cons bindings rest ih =>
    unfold runInstances
    extract_lets ran
    have own : Rehearses start (runInstance { site with matrix := bindings } definition)
        (runInstance { site with matrix := bindings } definition) :=
      runInstance_rehearses around plain
    have runs : Rehearses start (ran ()) (ran ()) := .bind own fun _ => ih _
    split
    · exact .bind (.info _) fun _ => runs
    · exact runs

theorem run_rehearses {workflow : Mapping} (around : Step.PlainWorkflow workflow) {job : Value}
    (plain : Plain (job.mapping?.getD [])) (root : String) (name : Scalar) :
    Rehearses start (run workflow root name job) (run workflow root name job) := by
  refine .bind ?_ fun instances => runInstances_rehearses around plain ..
  exact .of_alike (.of_does (Matrix.expand_inquires ..))
    (Matrix.expand_alike (likens_of_previews _ start) _)

end Rehearsal.Job
