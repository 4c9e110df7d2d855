import Rehearsal.Proofs.Play.Maintained

/-! What a step maintains comes down to its single deeds, to the confirmation of its command, and to
the record of its outputs, which is made under the id of the step. -/

namespace Rehearsal

open Play

variable {Fit : Session → Prop} {Out : Fault → Session → Prop}

/-! ### Mocks -/

def Deed.Mocks : Deed → Prop
  | call _ _ | keepMock _ _ => True
  | d => d.Inquires

theorem Deed.Inquires.mocks {d : Deed} (h : d.Inquires) : d.Mocks := by
  cases d <;> first | exact h | exact h.elim

namespace Registry

theorem maintains_load (bears : Bears Deed.Mocks Fit Out) (r : Registry) (name : String) :
    Maintains Fit Out (r.load name) := by
  have warns (message : String) (other : Deed.saysStuck .warning message = false) :
      Maintains Fit Out (warning message) := bears.log other
  unfold load
  split
  · exact .pure _
  · refine .bind (bears.info _) fun _ => ?_
    split
    · exact .bind (bears.info _) fun _ => .bind (bears.info _) fun _ => .pure _
    · refine .bind (bears.info _) fun _ => ?_
      split
      · exact .pure _
      · refine .bind (warns _ ?_) fun _ => .bind (warns _ ?_) fun _ => .pure _
        · simp [Deed.saysStuck, Text.startsWith, Text.after?]
        · simp [Deed.saysStuck, Text.startsWith, Text.after?]
      · refine .bind (warns _ ?_) fun _ => .pure _
        simp [Deed.saysStuck, Text.startsWith, Text.after?]

theorem maintains_get (bears : Bears Deed.Mocks Fit Out) (action : String) :
    Maintains Fit Out (Registry.get action) := by
  refine .get fun t _ => ?_
  dsimp only
  split
  · exact .pure _
  · refine .bind (maintains_load bears ..) fun m => .bind ?_ fun _ => .pure m
    exact bears.of_deed (.keepMock (Action.name action) m) (fun _ => rfl) trivial (.change _)

end Registry

namespace Step

variable {site : Site} {step : Value}

theorem maintains_logOutputs (bears : Bears Deed.Mocks Fit Out) (outputs : Outputs) :
    Maintains Fit Out (logOutputs outputs) := by
  induction outputs with
  | nil => exact .pure _
  | cons output rest ih =>
    exact .bind (bears.of_inquires (.mask _) (.mask _)) fun _ => .bind (bears.info _) fun _ => ih

theorem maintains_recordOutputs (bears : Bears Deed.Mocks Fit Out) {job : Scalar} {stepId : String}
    {outputs : Outputs}
    (records : ∀ s, Fit s → Fit ((Deed.recordStep job stepId outputs).after s)) :
    Maintains Fit Out (recordOutputs job stepId outputs) :=
  .bind ⟨records⟩ fun _ => maintains_logOutputs bears outputs

theorem maintains_member (bears : Bears Deed.Mocks Fit Out) (name : String) (v : Value) :
    Maintains Fit Out (adopt (member name v)) := bears.adopt (member_settles name v)

theorem maintains_runMock (bears : Bears Deed.Mocks Fit Out) {stepId : String}
    (records : ∀ outputs, Maintains Fit Out (recordOutputs site.job stepId outputs))
    (directory name : String) (m : Mock) :
    Maintains Fit Out (runMock site step stepId directory name m) := by
  have called (invocation : Invocation) : Maintains Fit Out (Registry.call m invocation) :=
    bears.of_deed (.call m invocation) (fun t => (perform_discard _ t).symm) trivial
      (call_ordinary ..)
  have given : Maintains Fit Out (inputs site step stepId) :=
    bears.of_inquires (inputs_consults (.all step) stepId).inquires (inputs_ordinary ..)
  have warns (message : String) (other : Deed.saysStuck .warning message = false) :
      Maintains Fit Out (warning message) := bears.log other
  refine .bind given fun _ => .get fun t _ => .bind (called _) fun answer => ?_
  split
  · refine warns _ ?_
    simp [Deed.saysStuck, Text.startsWith, Text.after?]
  · exact .bind (bears.fit _) fun _ => .bind (records _) fun _ => bears.info _
  · refine warns _ ?_
    simp [Deed.saysStuck, Text.startsWith, Text.after?]
  · exact .throw fun _ => bears.fault trivial

end Step

/-! ### Steps -/

/-- The deeds of a step outside its confirmations, except that it records outputs. -/
def Deed.Attends : Deed → Prop
  | execute _ _ _ | pause | addStep _ | endStep _ | failStep => True
  | d => d.Mocks

theorem Deed.Mocks.attends {d : Deed} (h : d.Mocks) : d.Attends := by
  cases d <;> first | exact h | exact h.elim

/-- That the deeds of steps keep what fits, that their confirmations maintain it, and that versions
which do not match end a step in a session that fits. -/
structure Tends (Fit : Session → Prop) (Out : Fault → Session → Prop) : Prop
    extends Bears Deed.Attends Fit Out where
  mismatch : ∀ {m : VersionMismatch} {s : Session}, Out (.mismatch m) s ↔ Fit s
  commands : Maintains Fit Out Step.commandAllowed
  failures : Maintains Fit Out Step.goesOnAfterFailure

namespace Tends

variable (tends : Tends Fit Out)
include tends

theorem mocks : Bears Deed.Mocks Fit Out :=
  tends.toBears.mono Deed.Inquires.mocks Deed.Mocks.attends

theorem executed (command directory : String) (environment : Table String String) :
    Maintains Fit Out (execute command directory environment) :=
  tends.of_deed (.execute ..) (fun t => (perform_discard _ t).symm) trivial
    (.of_ok fun t => ⟨_, _, perform_execute _ _ _ t⟩)

theorem unmatched {α : Type} (m : VersionMismatch) :
    Maintains Fit Out (throw (.mismatch m) : Play α) := .throw fun _ => tends.mismatch.mpr

theorem filled (scope : Scope) (stepId : String) (value : Value) :
    Maintains Fit Out (fillValue scope stepId value) :=
  tends.of_inquires (fillValue_inquires ..) (fillValue_ordinary ..)

end Tends

/-! Where quitting is a fault like any other, confirmations only matter by what they do. -/

def Deed.Acts : Deed → Prop
  | ask _ | allowCommands => True
  | d => d.Attends

theorem Deed.Attends.acts {d : Deed} (h : d.Attends) : d.Acts := by
  cases d <;> first | exact h | exact h.elim | trivial

namespace Step

theorem maintains_goesOn (bears : Bears Deed.Acts Fit Out) (quits : ∀ s, Fit s → Out .quit s)
    (answer : Confirmation) : Maintains Fit Out (goesOn answer) := by
  cases answer with
  | quit => exact .bind (bears.info _) fun _ => .throw quits
  | all =>
    refine .bind ?_ fun _ => .bind (bears.info _) fun _ => .pure _
    exact bears.of_deed .allowCommands (fun _ => rfl) trivial (.change _)
  | yes | no | skip => exact .pure _

theorem maintains_confirm (bears : Bears Deed.Acts Fit Out) (question : String) :
    Maintains Fit Out (confirm question) := by
  refine .bind ?_ fun _ => .pure _
  exact bears.of_deed (.ask _) (fun s => (perform_discard _ s).symm) trivial (.ask _)

end Step

theorem Tends.of_acts (bears : Bears Deed.Acts Fit Out)
    (faults : ∀ {fault s}, Out fault s ↔ Fit s) : Tends Fit Out where
  toBears := bears.mono (fun h => h.mocks.attends) Deed.Attends.acts
  mismatch := faults
  commands := by
    refine .get fun s _ => ?_
    split
    · exact .pure _
    · exact .bind (Step.maintains_confirm bears _) fun answer =>
        Step.maintains_goesOn bears (fun _ => faults.mpr) answer
  failures := by
    refine .get fun s _ => ?_
    split
    · refine .bind (bears.log (show Deed.saysStuck _ _ = false from ?_)) fun _ => .pure _
      simp [Deed.saysStuck, Text.startsWith, Text.after?]
    · refine .bind (Step.maintains_confirm bears _) fun answer =>
        .bind (Step.maintains_goesOn bears (fun _ => faults.mpr) answer) fun goes => ?_
      split
      · exact .pure _
      · exact .bind (bears.info _) fun _ => .pure _

namespace Terraform

theorem normalizeValue_settles (version : Value) : Settles (normalizeValue version) := by
  unfold normalizeValue
  split
  · trivial
  · split <;> trivial

theorem maintains_localVersion (tends : Tends Fit Out) (directory : String) :
    Maintains Fit Out (localVersion directory) := by
  refine .bind (tends.executed ..) fun report => ?_
  dsimp only
  split
  · exact .bind (tends.error _) fun _ => .bind (tends.error _) fun _ => tends.unmatched _
  · split
    · exact .throw fun t => tends.fault (show Fault.Ordinary .numeral from trivial)
    · exact tends.unmatched _
    · split
      · exact tends.unmatched _
      · exact .bind (tends.fit _) fun _ => .bind (tends.info _) fun _ => .pure _

theorem maintains_check (tends : Tends Fit Out) (required directory : String) :
    Maintains Fit Out (check required directory) := by
  refine .bind (maintains_localVersion tends directory) fun version => .bind (tends.fit _)
    fun text => .bind (tends.adopt (normalizeValue_settles version)) fun digits => ?_
  split
  · exact .bind (tends.error _) fun _ => .bind (tends.error _) fun _ =>
      .bind (tends.error _) fun _ => .bind (tends.error _) fun _ => tends.unmatched _
  · exact .bind (tends.info _) fun _ => .pure _

end Terraform

namespace Step

variable {site : Site} {step : Value} {stepId : String}

theorem maintains_showOutput (tends : Tends Fit Out) {level : Level} {title : String}
    (text : String) (other : ∀ shown, Deed.saysStuck level (title ++ "\n" ++ shown) = false) :
    Maintains Fit Out (showOutput level title text) := by
  unfold showOutput
  split
  · exact .pure _
  · exact .get fun s _ => tends.log (other _)

theorem maintains_finish (tends : Tends Fit Out)
    (records : ∀ outputs, Maintains Fit Out (recordOutputs site.job stepId outputs))
    (report : Report) : Maintains Fit Out (finish site stepId report) := by
  refine .bind (maintains_showOutput tends _ ?_) fun _ =>
    .bind (maintains_showOutput tends _ ?_) fun _ => ?_
  · simp [Deed.saysStuck]
  · simp [Deed.saysStuck, Text.startsWith, Text.after?]
  · extract_lets ended
    have ends (u : PUnit) : Maintains Fit Out (ended u) := by
      dsimp only [ended]
      split
      · exact .bind (tends.info _) fun _ => .pure _
      · exact .bind (tends.error _) fun _ => .bind tends.failures fun _ => .pure _
    split
    · exact .bind (records _) ends
    · exact ends ()

theorem maintains_runCommand (tends : Tends Fit Out)
    (records : ∀ outputs, Maintains Fit Out (recordOutputs site.job stepId outputs))
    (command : Value) (directory : String) :
    Maintains Fit Out (runCommand site step command stepId directory) := by
  refine .bind (tends.filled ..) fun text => .get fun t _ => ?_
  split
  · exact .bind (tends.info _) fun _ => .pure _
  refine .bind (tends.info _) fun _ => .bind (tends.info _) fun _ =>
    .bind tends.commands fun allowed => ?_
  split
  · exact .bind (tends.of_inquires (environment_inquires ..) (environment_ordinary ..))
      fun surroundings => .bind (tends.executed ..) fun report =>
        maintains_finish tends records report
  · exact .bind (tends.info _) fun _ => .pure _

theorem maintains_setUpTerraform (tends : Tends Fit Out) (directory : String) :
    Maintains Fit Out (setUpTerraform site step directory) := by
  refine .bind (tends.info _) fun _ => .bind (maintains_member tends.mocks ..) fun arguments => ?_
  extract_lets checked
  have checks (version : Value) : Maintains Fit Out (checked version) := by
    dsimp only [checked]
    split
    · refine tends.log (show Deed.saysStuck _ _ = false from ?_)
      simp [Deed.saysStuck, Text.startsWith, Text.after?]
    · refine .bind (tends.filled ..) fun required => .bind (tends.info _) fun _ =>
        .get fun t _ => ?_
      split
      · exact tends.info _
      · exact .bind (tends.info _) fun _ => .bind (Terraform.maintains_check tends ..) fun _ =>
          .pure _
  split
  · exact .bind (maintains_member tends.mocks ..) checks
  · exact .bind (.pure _) checks

theorem maintains_runAction (tends : Tends Fit Out)
    (records : ∀ outputs, Maintains Fit Out (recordOutputs site.job stepId outputs))
    (action : Value) (directory : String) :
    Maintains Fit Out (runAction site step action stepId directory) := by
  refine .bind (tends.fit _) fun action => .bind (tends.info _) fun _ => ?_
  split
  · exact .bind (maintains_setUpTerraform tends directory) fun _ => .pure _
  · split
    · exact .bind (tends.info _) fun _ => .pure _
    · refine .bind (Registry.maintains_get tends.mocks action) fun m => ?_
      dsimp only
      split
      · exact .bind (tends.info _) fun _ => .pure _
      · exact .bind (maintains_runMock tends.mocks records ..) fun _ => .pure _

theorem maintains_perform (tends : Tends Fit Out)
    (records : ∀ outputs, Maintains Fit Out (recordOutputs site.job stepId outputs))
    (name : String) : Maintains Fit Out (perform site step name stepId) := by
  refine .bind (tends.of_inquires (directory_inquires ..) (directory_ordinary ..))
    fun directory => .bind (maintains_member tends.mocks ..) fun command =>
    .bind (maintains_member tends.mocks ..) fun action => ?_
  dsimp only
  split
  · split
    · exact maintains_runAction tends records ..
    · refine .get fun t _ => ?_
      split
      · exact .bind (tends.info _) fun _ => .pure _
      · refine .bind (tends.info _) fun _ => .bind ?_ fun _ => .pure _
        exact tends.of_deed .pause (fun _ => rfl) trivial (.change _)
  · exact maintains_runCommand tends records ..

theorem maintains_run (tends : Tends Fit Out) {index : Nat}
    (records : ∀ stepId outputs, id step index = .ok stepId →
      Maintains Fit Out (recordOutputs site.job stepId outputs)) :
    Maintains Fit Out (run site step index) := by
  refine .bind (tends.adopt (name_settles ..)) fun name =>
    tends.bind_adopt (id_settles ..) fun stepId own => .bind (tends.info _) fun _ =>
    .bind (maintains_member tends.mocks ..) fun condition =>
    .bind (tends.of_inquires (Condition.holds_inquires ..) (Condition.holds_ordinary ..))
    fun holds => ?_
  split
  · exact maintains_perform tends (fun outputs => records stepId outputs own) name
  · exact .bind (tends.fit _) fun _ => .bind (tends.info _) fun _ => .pure _

end Step

theorem Job.maintains_runStep (tends : Tends Fit Out) {site : Step.Site} {step : Value}
    {index : Nat} (records : ∀ stepId outputs, Step.id step index = .ok stepId →
      Maintains Fit Out (Step.recordOutputs site.job stepId outputs)) :
    Maintains Fit Out (runStep site step index) := by
  have failed : Maintains Fit Out failLast :=
    tends.of_deed .failStep (fun _ => rfl) trivial (.change _)
  refine .bind (tends.adopt (startedStep_settles ..)) fun started =>
    .bind (tends.of_deed (.addStep started) (fun _ => rfl) trivial (.change _)) fun _ =>
    .bind (.tryCatch (Step.maintains_run tends records) fun fault t left => ?_) fun outcome => ?_
  -- A step of which a version does not match is failed before the fault goes on.
  · cases fault with
    | mismatch m => exact tends.mismatch.mpr (failed.outcome t (tends.mismatch.mp left))
    | _ => exact left
  · dsimp only
    split
    · exact .bind failed fun _ => .pure _
    · refine .bind ?_ fun _ => .pure _
      exact tends.of_deed (.endStep outcome.status) (fun _ => rfl) trivial (.change _)

end Rehearsal
