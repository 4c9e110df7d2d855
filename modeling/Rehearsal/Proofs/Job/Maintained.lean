import Rehearsal.Proofs.Step.Maintained

/-! What a job maintains comes down to the deeds between its steps, to the confirmation of its
instances, and to the steps. -/

namespace Rehearsal

open Play

/-! ### Jobs -/

/-- The deeds of a job outside its steps and the confirmations of its instances. -/
def Deed.Between (job : Scalar) : Deed → Prop
  | recordJob owner _ _ => owner = job
  | start name => ∃ bindings, Job.displayName job bindings = .ok name
  | skip => True
  | d => d.Inquires

theorem Deed.Between.ofJob {job : Scalar} {d : Deed} (h : d.Between job) : d.OfJob job := by
  cases d <;> first | exact h | trivial

theorem Deed.Inquires.between {job : Scalar} {d : Deed} (h : d.Inquires) : d.Between job := by
  cases d <;> first | exact h | exact h.elim

namespace Job

open Step (Site)

variable {job : Scalar} {Fit : Session → Prop} {Out : Fault → Session → Prop} {site : Site}
  {definition : Mapping}

theorem recordEach_between (scope : Scope) (outputs : List (Scalar × Value)) :
    Does (Deed.Between scope.job) (recordEach scope outputs) := by
  induction outputs with
  | nil => exact .pure _
  | cons output rest ih =>
    obtain ⟨key, value⟩ := output
    refine .bind ((resolveJobOutput_consults scope (.all value)).inquires.mono
      fun _ => Deed.Inquires.between) fun text => .bind (.fit _) fun name => .bind ?_ fun _ =>
        .bind (.mask _) fun _ => .bind (.log (Deed.inquires_info _)) fun _ => ih
    exact .of_deed (.recordJob scope.job name text) (fun _ => rfl) rfl

theorem recordOutputs_between (scope : Scope) (definition : Mapping) :
    Does (Deed.Between scope.job) (recordOutputs scope definition) := by
  unfold recordOutputs
  split
  · exact .bind (.log (Deed.inquires_info _)) fun _ => recordEach_between ..
  · exact .pure _

def statedSteps (definition : Mapping) : List Value := (steps definition).toOption.getD []

theorem maintains_runSteps {all items : List Value} {index : Nat} (own : all.drop index = items)
    (steps : ∀ step index, all[index]? = some step → Maintains Fit Out (runStep site step index)) :
    Maintains Fit Out (runSteps site items index) := by
  induction items generalizing index with
  | nil => exact .pure _
  | cons step rest ih =>
    have stated : all[index]? = some step := by
      rw [← List.head?_drop, own]
      rfl
    have others : all.drop (index + 1) = rest := by
      rw [← List.tail_drop, own]
      rfl
    refine .bind (steps step index stated) fun goes => ?_
    split
    · exact ih others
    · exact .pure _

theorem maintains_perform (bears : Bears (Deed.Between site.job) Fit Out)
    (steps : ∀ surroundings step index, (statedSteps definition)[index]? = some step →
      Maintains Fit Out (runStep { site with jobEnvironment := surroundings } step index))
    (title : String) : Maintains Fit Out (perform site definition title) := by
  refine .bind (bears.of_inquires (environment_inquires ..) (environment_ordinary ..))
    fun surroundings => bears.bind_adopt (steps_settles _) fun items listed => ?_
  have own : (statedSteps definition).drop 0 = items := by
    rw [statedSteps, listed]
    rfl
  refine .bind (maintains_runSteps own (steps surroundings)) fun goes => ?_
  split
  · have records : Maintains Fit Out (recordOutputs site.scope definition) :=
      bears.of_does (recordOutputs_between site.scope _) (recordOutputs_ordinary ..)
    exact .bind records fun _ => bears.info _
  · exact bears.info _

theorem maintains_confirmed {Kind : Deed → Prop} {title : String} (bears : Bears Kind Fit Out)
    (asked : Maintains Fit Out (confirm ("Do you want to run job '" ++ title ++ "'?")))
    (allows : Kind .allowJobs) (skips : Kind .skip) (quits : ∀ s, Fit s → Out .quit s) :
    Maintains Fit Out (confirmed title) := by
  refine .get fun s _ => ?_
  dsimp only
  split
  · exact .pure _
  refine .bind asked fun answer => ?_
  cases answer with
  | quit =>
    refine .bind (bears.info _) fun _ => .bind ?_ fun _ => .throw quits
    exact bears.of_deed .skip (fun _ => rfl) skips (.change _)
  | all =>
    refine .bind ?_ fun _ => .bind (bears.info _) fun _ => .pure _
    exact bears.of_deed .allowJobs (fun _ => rfl) allows (.change _)
  | yes => exact .pure _
  | no | skip => exact .bind (bears.info _) fun _ => .pure _

theorem maintains_runInstance (bears : Bears (Deed.Between site.job) Fit Out)
    (confirms : ∀ title, Maintains Fit Out (confirmed title))
    (steps : ∀ surroundings step index, (statedSteps definition)[index]? = some step →
      Maintains Fit Out (runStep { site with jobEnvironment := surroundings } step index)) :
    Maintains Fit Out (runInstance site definition) := by
  have started (name : Scalar) (named : displayName site.job site.matrix = .ok name) :
      Maintains Fit Out (modifyLedger (Ledger.start name)) :=
    bears.of_deed (.start name) (fun _ => rfl) ⟨site.matrix, named⟩ (.change _)
  have skipped : Maintains Fit Out skip :=
    bears.of_deed .skip (fun _ => rfl) trivial (.change _)
  refine bears.bind_fit fun name named => .bind (started name named) fun _ => .bind (bears.fit _)
    fun title => .bind (bears.info _) fun _ => ?_
  extract_lets stated condition decided told
  have decides : Maintains Fit Out (decided ()) := by
    refine .bind (confirms title) fun agreed => ?_
    split
    · refine .bind (bears.of_inquires (Condition.holds_inquires ..)
        (Condition.holds_ordinary ..)) fun holds => ?_
      split
      · exact maintains_perform bears steps title
      · exact .bind (bears.fit _) fun _ => .bind (bears.info _) fun _ => skipped
    · exact skipped
  have tells : Maintains Fit Out (told ()) := by
    dsimp only [told]
    split
    · exact .bind (bears.fit _) fun _ => .bind (bears.info _) fun _ => decides
    · exact decides
  split
  · exact .bind (bears.fit _) fun _ => .bind (bears.info _) fun _ => tells
  · exact tells

theorem maintains_runInstances (bears : Bears (Deed.Between site.job) Fit Out)
    (confirms : ∀ title, Maintains Fit Out (confirmed title))
    (steps : ∀ bindings surroundings step index, Maintains Fit Out
      (runStep { site with matrix := bindings, jobEnvironment := surroundings } step index))
    (count : Nat) (instances : List Mapping) (number : Nat) :
    Maintains Fit Out (runInstances site definition count instances number) := by
  induction instances generalizing number with
  | nil => exact .pure _
  | cons bindings rest ih =>
    unfold runInstances
    extract_lets ran
    have own : Maintains Fit Out (runInstance { site with matrix := bindings } definition) :=
      maintains_runInstance bears confirms fun _ _ _ _ => steps ..
    have runs : Maintains Fit Out (ran ()) := .bind own fun _ => ih _
    split
    · exact .bind (bears.info _) fun _ => runs
    · exact runs

/-- What the steps and the confirmations of a job maintain, and what lies between them bears, the
job maintains. -/
theorem maintains_run {workflow : Mapping} (bears : Bears (Deed.Between job) Fit Out)
    (confirms : ∀ title, Maintains Fit Out (confirmed title))
    (steps : ∀ site step index, site.workflow = workflow → site.job = job →
      Maintains Fit Out (runStep site step index)) (root : String) (definition : Value) :
    Maintains Fit Out (run workflow root job definition) :=
  .bind (bears.of_inquires (Matrix.expand_inquires ..) (Matrix.expand_ordinary ..)) fun _ =>
    maintains_runInstances bears confirms (fun _ _ _ _ => steps _ _ _ rfl rfl) ..

end Job
end Rehearsal
