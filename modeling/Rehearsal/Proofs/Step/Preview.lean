import Rehearsal.Proofs.Expression.Placeholder
import Rehearsal.Proofs.Job.Alike
import Rehearsal.Proofs.Play.Preview
import Rehearsal.Proofs.Play.Yields
import Rehearsal.Proofs.Step.Course
import Rehearsal.Proofs.Step.Frame
import Rehearsal.Proofs.Workflow.Needs

/-! Each kind of step looks for itself whether the run is a dry one. What it does then comes to the
same as what it does in a real run, provided that the variables of its command can be had without
asking for them: `run_rehearses`. -/

namespace Rehearsal

open Play Expression

variable {start : Session}

/-! ### Plain variables -/

namespace Value

/-- That the values of an environment are strings in which no placeholder begins. -/
def Constant (environment : Value) : Prop :=
  ∀ entry ∈ environment.mapping?.getD [],
    ∃ text, entry.2 = .str text ∧ Placeholder.IsFree text.toList

/-- That the keys of an environment have texts, as all but integers with too many digits have. -/
def Named (environment : Value) : Prop :=
  ∀ entry ∈ environment.mapping?.getD [], ∃ name, entry.1.plain = .ok name

end Value

theorem Expression.Placeholder.extract_of_isFree {text : String} (free : IsFree text.toList) :
    extract text = [] := by
  rw [extract, cut_eq_plain free, ofPiece?_plain]

theorem fill_of_isFree {text : String} (free : Placeholder.IsFree text.toList) (scope : Scope)
    (step : String) : fill scope step text = pure text := by
  rw [fill, Placeholder.extract_of_isFree free]
  show pure (String.ofList text.toList) = (pure text : Play String)
  rw [String.ofList_toList]

namespace Step

variable {site : Site} {step : Value} {stepId : String}

theorem fillEntries_of_constant {entries : List (Scalar × Value)} (scope : Scope) (stepId : String)
    (constant : ∀ entry ∈ entries, ∃ text, entry.2 = .str text ∧ Placeholder.IsFree text.toList)
    (named : ∀ entry ∈ entries, ∃ name, entry.1.plain = .ok name) :
    ∃ filled, fillEntries scope stepId entries = pure filled := by
  induction entries with
  | nil => exact ⟨[], rfl⟩
  | cons entry rest ih =>
    obtain ⟨⟨text, stated, free⟩, constants⟩ := List.forall_mem_cons.mp constant
    obtain ⟨⟨name, shown⟩, others⟩ := List.forall_mem_cons.mp named
    obtain ⟨filled, same⟩ := ih constants others
    obtain ⟨key, value⟩ := entry
    dsimp only at shown stated
    subst stated
    have own : fillValue scope stepId (.str text) = pure text := fill_of_isFree free scope stepId
    refine ⟨(name, text) :: filled, ?_⟩
    rw [fillEntries, shown, own, same]
    rfl

structure Plain (environment : Value) : Prop where
  constant : environment.Constant
  named : environment.Named

theorem statedVariables_of_plain {environment : Value} (plain : Plain environment) (scope : Scope)
    (stepId : String) : ∃ table, statedVariables scope stepId environment = pure table := by
  unfold statedVariables
  split
  · next entries content =>
    have stated : environment.mapping?.getD [] = entries := by
      rw [Value.mapping?, content]
      rfl
    subst stated
    obtain ⟨filled, same⟩ :=
      fillEntries_of_constant scope stepId plain.constant plain.named
    exact ⟨Table.ofList filled, by rw [same]; rfl⟩
  · exact ⟨[], rfl⟩

def PlainStep (step : Value) : Prop :=
  ∀ environment, member "env" step = .ok environment → Plain environment

def PlainWorkflow (workflow : Mapping) : Prop :=
  ∀ environment, Table.find? (.str "env") workflow = some environment → Plain environment

theorem environment_of_plain (around : PlainWorkflow site.workflow) (plain : PlainStep step)
    {name : String} {value : Value} (stated : member name step = .ok value) (stepId : String) :
    ∃ table, environment site step stepId = pure table := by
  have shared : Plain ((Table.find? (.str "env") site.workflow).getD .null) := by
    cases found : Table.find? (.str "env") site.workflow with
    | none => exact ⟨List.forall_mem_nil _, List.forall_mem_nil _⟩
    | some environment => exact around environment found
  obtain ⟨ofWorkflow, first⟩ := statedVariables_of_plain shared site.scope stepId
  have own : ∃ environment, member "env" step = .ok environment := by
    unfold member at stated ⊢
    split at stated
    · exact ⟨_, rfl⟩
    · cases stated
  obtain ⟨environment, own⟩ := own
  obtain ⟨ofStep, second⟩ := statedVariables_of_plain (plain _ own) site.scope stepId
  refine ⟨Command.baseEnvironment |> Table.putAll ofWorkflow |>
    Table.putAll site.jobEnvironment |> Table.putAll ofStep, ?_⟩
  simp only [Step.environment, first, own, second, adopt, pure_bind]

/-! ### What steps find -/

theorem fillValue_rehearses (scope : Scope) (stepId : String) (value : Value) :
    Rehearses start (fillValue scope stepId value) (fillValue scope stepId value) :=
  .of_alike (.of_does (fillValue_inquires ..)) (fillValue_alike (likens_of_previews _ start) ..)

theorem holds_rehearses (frame : Condition.Frame) (condition : Value) :
    Rehearses start (Condition.holds frame condition) (Condition.holds frame condition) :=
  .of_alike (.of_does (Condition.holds_inquires ..))
    (Condition.holds_alike (likens_of_previews _ start) condition)

theorem directory_rehearses :
    Rehearses start (directory site step stepId) (directory site step stepId) := by
  refine .bind (.adopt _) fun own => ?_
  dsimp only
  split
  · exact .pure _
  · exact .bind (fillValue_rehearses ..) fun _ => .pure _

theorem inputs_rehearses :
    Rehearses start (inputs site step stepId) (inputs site step stepId) := by
  have fills (entries : List (Scalar × Value)) : Rehearses start
      (fillEntries site.scope stepId entries) (fillEntries site.scope stepId entries) := by
    induction entries with
    | nil => exact .pure _
    | cons entry rest ih =>
      exact .bind (.fit _) fun _ => .bind (fillValue_rehearses ..) fun _ =>
        .bind ih fun _ => .pure _
  refine .bind (.adopt _) fun arguments => ?_
  split
  · exact .pure _
  · split
    · exact .bind (fills _) fun _ => .pure _
    · exact .throw _

/-! ### Commands -/

theorem commandAllowed_rehearses {α : Type} {next : Bool → Play α} {dry : Play α}
    (refused : Grows (next false)) (rest : Rehearses start (next true) dry) :
    Rehearses start (commandAllowed >>= next) dry := by
  have known {s : Session} (allowed : s.policy.runAllCommands = true) :
      commandAllowed.perform s = (.ok true, s) := by
    rw [commandAllowed, perform_get_bind, if_pos allowed]
    rfl
  refine ⟨?_, fun previews serves => ?_⟩
  · refine Grows.bind (.of_does commandAllowed_prepares) fun allowed => ?_
    cases allowed with
    | true => exact rest.grows
    | false => exact refused
  · rw [perform_bind_ok (known previews.allowed)] at serves ⊢
    exact rest.follows previews serves

theorem showOutput_rehearses (level : Level) (title text : String) :
    Rehearses start (showOutput level title text) (pure ()) := by
  unfold showOutput
  split
  · exact .pure _
  · refine .of_said level
      (fun s => title ++ "\n" ++ shown s.policy s.secrets text) fun s => ?_
    rw [perform_get_bind, perform_log]

theorem finish_rehearses {report : Report} (quiet : report.Quiet) :
    Rehearses start (finish site stepId report) (pure ⟨.success, false⟩) := by
  refine .after_live (showOutput_rehearses ..) (.after_live (showOutput_rehearses ..) ?_)
  rw [quiet.unwritten, quiet.succeeded]
  exact .after_live (.of_log ..) (.pure _)

theorem runCommand_rehearses (around : PlainWorkflow site.workflow) (plain : PlainStep step)
    {command : Value} (stated : member "run" step = .ok command) (directory : String) :
    Rehearses start (runCommand site step command stepId directory)
      (runCommand site step command stepId directory) := by
  obtain ⟨table, known⟩ := environment_of_plain around plain stated stepId
  refine .bind (fillValue_rehearses ..) fun text => .fork ?_ ?_
  · refine .after_live (.of_log ..) (.after_live (.of_log ..) (commandAllowed_rehearses ?_ ?_))
    · exact .bind (.log ..) fun _ => .pure _
    · rw [if_pos rfl, known, pure_bind]
      refine .of_command ?_ (fun report => ?_) fun report quiet => finish_rehearses quiet
      · rw [Table.has, Table.find?_put_self]
        rfl
      · have finished : Consults (Deed.OfStep site.job) (fun _ => True)
            (finish site stepId report) := finish_consults ..
        exact .of_does (finished.does fun _ own => own.works.ofStep)
  · exact .bind (.log ..) fun _ => .pure _

end Step

/-! ### Actions -/

theorem Terraform.check_rehearses {dry : Play Unit} (required directory : String)
    (rest : Rehearses start (pure ()) dry) :
    Rehearses start (check required directory >>= fun _ => pure ()) dry := by
  rw [check, localVersion, bind_assoc, bind_assoc]
  refine .of_version rfl (fun report => ?_) fun report stated => ?_
  · refine .bind ?_ fun version => .bind (.bind (.adopt _) fun text => .bind (.adopt _) fun _ => ?_)
      fun _ => .pure _
    · split
      · exact .bind (.log ..) fun _ => .bind (.log ..) fun _ => .throw _
      · dsimp only
        split
        · exact .throw _
        · exact .throw _
        · split
          · exact .throw _
          · exact .bind (.adopt _) fun _ => .bind (.log ..) fun _ => .pure _
    · split
      · exact .bind (.log ..) fun _ => .bind (.log ..) fun _ => .bind (.log ..) fun _ =>
          .bind (.log ..) fun _ => .throw _
      · exact .bind (.log ..) fun _ => .pure _
  · obtain ⟨succeeded, output, version, text, digits, parsed, found, shown, read⟩ := stated
    simp only [succeeded, parsed, found, shown, fit, orUnfit, adopt, Bool.not_true,
      Bool.false_eq_true, if_false, pure_bind, bind_assoc, read]
    refine .after_live (.of_log ..) ?_
    split
    · simp only [bind_assoc]
      refine .after_live (.of_log ..) <| .after_live (.of_log ..) <| .after_live (.of_log ..) <|
        .after_live (.of_log ..) <| .of_mismatch ?_ fun s => ⟨_, rfl⟩
      exact .bind (.throw _) fun _ => .pure _
    · simp only [bind_assoc, pure_bind]
      exact .after_live (.of_log ..) rest

namespace Registry

/-- That what is found comes from sessions with impartial mocks, and is impartial itself. -/
abbrev FindsImpartial (play : Play (Option Mock)) : Prop :=
  Yields (·.registry.Impartial) (fun _ => True) (fun found => ∀ m, found = some m → m.Impartial)
    play

theorem load_findsImpartial {r : Registry} (impartial : r.Impartial) (name : String) :
    FindsImpartial (r.load name) := by
  have logs (level : Level) (message : String) :
      Yields (·.registry.Impartial) (fun _ => True) (fun _ => True) (log level message) :=
    .of_perform fun s fit => ⟨_, _, perform_log level message s, fit, trivial⟩
  unfold load
  split
  · exact .pure nofun
  · refine .bind (logs ..) fun _ _ => ?_
    split
    · exact .bind (logs ..) fun _ _ => .bind (logs ..) fun _ _ => .pure nofun
    · next file found =>
      refine .bind (logs ..) fun _ _ => ?_
      split
      · next m =>
        obtain ⟨key, member, -⟩ := Table.mem_of_find?_eq_some found
        refine .pure ?_
        rintro _ ⟨⟩
        exact impartial.files _ member m rfl
      · exact .bind (logs ..) fun _ _ => .bind (logs ..) fun _ _ => .pure nofun
      · exact .bind (logs ..) fun _ _ => .pure nofun

theorem get_findsImpartial (action : String) : FindsImpartial (Registry.get action) := by
  refine .bind .get fun s impartial => ?_
  dsimp only
  split
  · next m found =>
    obtain ⟨key, member, -⟩ := Table.mem_of_find?_eq_some found
    exact .pure (impartial.known _ member)
  · refine .bind (load_findsImpartial impartial _) fun m own =>
      .bind ?_ fun _ (_ : True) => .pure own
    exact .of_perform fun s fit => ⟨_, _, perform_modify _ s, fit.keep _ own, trivial⟩

theorem load_rehearses (r : Registry) (name : String) :
    Rehearses start (r.load name) (r.load name) := by
  unfold load
  split
  · exact .pure _
  · refine .bind (.info _) fun _ => ?_
    split
    · exact .bind (.info _) fun _ => .bind (.info _) fun _ => .pure _
    · refine .bind (.info _) fun _ => ?_
      split
      · exact .pure _
      · exact .bind (.log ..) fun _ => .bind (.log ..) fun _ => .pure _
      · exact .bind (.log ..) fun _ => .pure _

theorem get_rehearses (action : String) :
    Rehearses start (Registry.get action) (Registry.get action) := by
  have keeps (m : Option Mock) :
      Grows (modify fun s => { s with registry := s.registry.keep (Action.name action) m } :
        Play PUnit) := ⟨fun s => ⟨[], rfl⟩⟩
  refine .of_get (.of_does (Step.get_prepares action)) fun {s t} previews => ?_
  rw [previews.registry]
  dsimp only
  split
  · exact .pure _
  · refine .bind_yields (load_rehearses ..) (load_findsImpartial previews.impartial _)
      (fun m => .bind (keeps m) fun _ => .pure _) fun m impartial => .bind ?_ fun _ => .pure _
    exact .of_deed (.keepMock (Action.name action) m) (fun _ => rfl) impartial

end Registry

namespace Step

variable {site : Site} {step : Value} {stepId : String}

theorem setUpTerraform_rehearses (directory : String) :
    Rehearses start (setUpTerraform site step directory) (setUpTerraform site step directory) := by
  refine .bind (.info _) fun _ => .bind (.adopt _) fun arguments => ?_
  extract_lets checked
  have checks (version : Value) : Rehearses start (checked version) (checked version) := by
    dsimp only [checked]
    split
    · exact .log ..
    · refine .bind (fillValue_rehearses ..) fun required => .bind (.info _) fun _ =>
        .fork (.after_live (.of_log ..) ?_) (.log ..)
      exact Terraform.check_rehearses _ _ (.of_hint (.version _))
  split
  · exact .bind (.adopt _) checks
  · exact .bind (.pure _) checks

theorem recordOutputs_rehearses (job : Scalar) (outputs : Outputs) :
    Rehearses start (recordOutputs job stepId outputs) (recordOutputs job stepId outputs) := by
  have logs (entries : List (String × String)) :
      Rehearses start (logOutputs entries) (logOutputs entries) := by
    induction entries with
    | nil => exact .pure _
    | cons entry rest ih => exact .bind (.mask _) fun _ => .bind (.info _) fun _ => ih
  refine .bind ?_ fun _ => logs outputs
  exact .of_deed (.recordStep job stepId outputs) (fun _ => rfl) trivial

theorem runMock_rehearses (directory name : String) {m : Mock} (impartial : m.Impartial) :
    Rehearses start (runMock site step stepId directory name m)
      (runMock site step stepId directory name m) := by
  refine .bind inputs_rehearses fun given => .of_call impartial fun told => ?_
  split
  · exact .log ..
  · exact .bind (.fit _) fun _ => .bind (recordOutputs_rehearses ..) fun _ => .info _
  · exact .log ..
  · exact .throw _

theorem runAction_rehearses (action : Value) (directory : String) :
    Rehearses start (runAction site step action stepId directory)
      (runAction site step action stepId directory) := by
  refine .bind (.fit _) fun action => .bind (.info _) fun _ => ?_
  split
  · exact .bind (setUpTerraform_rehearses directory) fun _ => .pure _
  · split
    · exact .bind (.info _) fun _ => .pure _
    · refine .bind_yields (Registry.get_rehearses _) (Registry.get_findsImpartial _)
        (fun found => ?_) fun found impartial => ?_
      · dsimp only
        split
        · exact .bind (.log ..) fun _ => .pure _
        · have mocks : Consults (Deed.Works site.job) (fun _ => True) _ :=
            runMock_consults (.all step) stepId directory (Action.name action) ‹Mock›
          exact .bind (.of_does (mocks.does fun _ => Deed.Inquires.works)) fun _ => .pure _
      · dsimp only
        split
        · exact .bind (.info _) fun _ => .pure _
        · exact .bind (runMock_rehearses _ _ (impartial _ rfl)) fun _ => .pure _

/-! ### Steps -/

theorem perform_rehearses (around : PlainWorkflow site.workflow) (plain : PlainStep step)
    (name : String) :
    Rehearses start (perform site step name stepId) (perform site step name stepId) := by
  refine .bind directory_rehearses fun directory => .bind_adopt fun command stated =>
    .bind (.adopt _) fun action => ?_
  dsimp only
  split
  · split
    · exact runAction_rehearses _ _
    · have pauses : Rehearses start (record .pause) (pure ()) :=
        .of_live fun s => ⟨[.pause], by simp [Event.Live], by simp [Event.isExec], rfl⟩
      refine .fork (.after_live (.of_log ..) (.after_live pauses (.after_hint (.step name) ?_))) ?_
      · exact .pure _
      · exact .bind (.log ..) fun _ => .pure _
  · exact runCommand_rehearses around plain stated _

theorem run_rehearses (around : PlainWorkflow site.workflow) (plain : PlainStep step)
    (index : Nat) : Rehearses start (run site step index) (run site step index) := by
  refine .bind (.adopt _) fun name => .bind (.adopt _) fun stepId => .bind (.info _) fun _ =>
    .bind (.adopt _) fun condition => .bind (holds_rehearses ..) fun holds => ?_
  split
  · exact perform_rehearses around plain name
  · exact .bind (.fit _) fun _ => .bind (.info _) fun _ => .pure _

end Step
end Rehearsal
