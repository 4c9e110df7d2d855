import Mathlib.Data.List.TakeWhile
import Rehearsal.Proofs.Context.Lookup
import Rehearsal.Proofs.Step.Maintained
import Rehearsal.Proofs.Step.Review

/-! A step records outputs at one place at most: when its command came back, or when its mock
returned a mapping. It records all that was reported, under its own id, and everything else that it
does leaves the outputs on record as they are: `Step.steps_keep_to_their_outputs`. -/

namespace Rehearsal

open Play

/-! ### What is done beside -/

def Deed.Prepares : Deed → Prop
  | execute _ _ _ | call _ _ | recordStep _ _ _ | recordJob _ _ _ => False
  | _ => True

namespace Deed

variable {d : Deed}

theorem Inquires.prepares (h : d.Inquires) : d.Prepares := by
  cases d <;> first | exact h.elim | trivial

namespace Prepares

theorem spares (h : d.Prepares) : d.Spares := by
  intro s
  cases d <;> first
    | exact h.elim
    | constructor <;> simp [after, play, Play.echo, Play.perform_discard, Context.remember,
        Job.skip, Job.failLast]

theorem after_reports (h : d.Prepares) (s : Session) : (d.after s).reports = s.reports := by
  cases d <;> first
    | exact h.elim
    | simp [after, play, Play.echo, Play.perform_discard, Job.skip, Job.failLast]

theorem after_calls (h : d.Prepares) (s : Session) :
    (d.after s).registry.calls = s.registry.calls := by
  cases d <;> first
    | exact h.elim
    | simp [after, play, Play.echo, Play.perform_discard, Job.skip, Job.failLast, Registry.keep]

theorem unexecuted (h : d.Prepares) {s : Session} {event : Event} (member : event ∈ d.events s) :
    event.isExec = false := by
  cases d with
  | log => exact (Event.Aside.of_mem_logged member).unexecuted
  | echo | ask | pause =>
    rw [List.mem_singleton.mp member]
    rfl
  | execute | call => exact h.elim
  | _ => cases member

end Prepares

theorem Acts.spares (h : d.Acts) : d.Spares := by
  cases d with
  | execute | call => exact fun s => by constructor <;> simp [after, play, Play.perform_discard]
  | recordStep | recordJob | allowJobs | start | skip => exact h.elim
  | _ => exact Prepares.spares (by trivial)

end Deed

structure Untouched (s t : Session) : Prop where
  outputs : s.SameOutputs t
  reports : t.reports = s.reports
  calls : t.registry.calls = s.registry.calls
  dry : t.policy.dryRun = s.policy.dryRun
  trace : ∃ new, t.trace = new ++ s.trace ∧ ∀ event ∈ new, event.isExec = false

namespace Untouched

variable {s t u : Session}

theorem refl (s : Session) : Untouched s s := ⟨⟨rfl, rfl⟩, rfl, rfl, rfl, [], rfl, nofun⟩

theorem trans (first : Untouched s t) (rest : Untouched t u) : Untouched s u := by
  obtain ⟨new, added, plain⟩ := first.trace
  obtain ⟨more, adds, others⟩ := rest.trace
  exact ⟨first.outputs.trans rest.outputs, rest.reports.trans first.reports,
    rest.calls.trans first.calls, rest.dry.trans first.dry, more ++ new,
    by rw [adds, added, List.append_assoc], List.forall_mem_append.mpr ⟨others, plain⟩⟩

theorem unexecuted (untouched : Untouched s t) : ∀ event ∈ t.since s, event.isExec = false := by
  obtain ⟨new, added, plain⟩ := untouched.trace
  rwa [Session.since_eq added]

theorem of_does {α : Type} {play : Play α} {result : Except Fault α}
    (does : Does Deed.Prepares play) (performed : play.perform s = (result, t)) :
    Untouched s t := by
  obtain ⟨deeds, kind, same⟩ := does.deeds s
  rw [performed] at same
  obtain rfl : t = _ := same
  clear performed
  induction deeds generalizing s with
  | nil => exact refl s
  | cons d deeds ih =>
    obtain ⟨own, others⟩ := List.forall_mem_cons.mp kind
    have first : Untouched s (d.after s) :=
      ⟨own.spares s, own.after_reports s, own.after_calls s, d.after_dryRun s, d.events s,
        d.after_trace s, fun event => own.unexecuted⟩
    exact first.trans (ih others)

end Untouched

/-! ### What is recorded -/

/-- That these outputs were recorded for a step between two sessions, and nothing else. -/
structure Records (job : Scalar) (stepId : String) (outputs : Outputs) (s t : Session) : Prop where
  jobs : t.context.jobs = s.context.jobs
  steps : ∀ other id name, t.context.stepOutput? other id name =
    (s.context.recordStep job stepId outputs).stepOutput? other id name

namespace Records

variable {job : Scalar} {stepId : String} {outputs : Outputs} {s t u : Session}

theorem of_recorded (same : ((Deed.recordStep job stepId outputs).after s).SameOutputs t) :
    Records job stepId outputs s t := ⟨same.jobs, same.stepOutput?⟩

theorem of_same (same : s.SameOutputs t) : Records job stepId [] s t := by
  refine ⟨same.jobs, fun other id name => ?_⟩
  rw [Context.stepOutput?_recordStep, same.stepOutput?]
  exact (ite_self _).symm

theorem after (same : s.SameOutputs t) (records : Records job stepId outputs t u) :
    Records job stepId outputs s u := by
  refine ⟨records.jobs.trans same.jobs, fun other id name => ?_⟩
  rw [records.steps, Context.stepOutput?_recordStep, Context.stepOutput?_recordStep,
    same.stepOutput?]

theorem stepOutput? {entries : List (String × String)} {name value : String}
    (records : Records job stepId (Table.ofList entries) s t)
    (found : Table.find? name (Table.ofList entries) = some value) :
    t.context.stepOutput? job stepId name = some value := by
  rw [records.steps, Context.stepOutput?_recordStep, if_pos ⟨BEq.rfl, rfl⟩, Table.ofList_ofList,
    found, Option.some_or]

end Records

theorem Action.name_name (action : String) : name (name action) = name action := by
  rw [name, name, String.toList_ofList, List.takeWhile_idem]

namespace Step

variable {site : Site} {step : Value} {stepId : String} {s t : Session}

theorem log_prepares (level : Level) (message : String) :
    Does Deed.Prepares (log level message) := .log trivial

theorem confirm_prepares (question : String) : Does Deed.Prepares (confirm question) :=
  .bind (.ask trivial) fun _ => .pure _

theorem goesOn_prepares (answer : Confirmation) : Does Deed.Prepares (goesOn answer) := by
  cases answer with
  | quit => exact .bind (log_prepares ..) fun _ => .throw _
  | all =>
    refine .bind (.of_deed .allowCommands (fun _ => rfl) trivial) fun _ => ?_
    exact .bind (log_prepares ..) fun _ => .pure _
  | _ => exact .pure _

theorem commandAllowed_prepares : Does Deed.Prepares commandAllowed := by
  refine .bind .get fun s => ?_
  split
  · exact .pure _
  · exact .bind (confirm_prepares _) goesOn_prepares

theorem goesOnAfterFailure_prepares : Does Deed.Prepares goesOnAfterFailure := by
  refine .bind .get fun s => ?_
  split
  · exact .bind (log_prepares ..) fun _ => .pure _
  · refine .bind (confirm_prepares _) fun _ => .bind (goesOn_prepares _) fun goes => ?_
    split
    · exact .pure _
    · exact .bind (log_prepares ..) fun _ => .pure _

theorem showOutput_prepares (level : Level) (title text : String) :
    Does Deed.Prepares (showOutput level title text) := by
  unfold showOutput
  split
  · exact .pure _
  · exact .bind .get fun s => log_prepares ..

theorem logOutputs_prepares (outputs : List (String × String)) :
    Does Deed.Prepares (logOutputs outputs) := by
  induction outputs with
  | nil => exact .pure _
  | cons output rest ih => exact .bind (.mask _) fun _ => .bind (log_prepares ..) fun _ => ih

theorem records_of_recordOutputs {α : Type} {job : Scalar} {outputs : Outputs}
    {next : Unit → Play α} {result : Except Fault α} (rest : Does Deed.Prepares (next ()))
    (performed : (recordOutputs job stepId outputs >>= next).perform s = (result, t)) :
    Records job stepId outputs s t := by
  rw [recordOutputs, bind_assoc, perform_bind_ok (perform_modifyContext ..)] at performed
  exact .of_recorded (Untouched.of_does (.bind (logOutputs_prepares _) fun _ => rest)
    performed).outputs

theorem records_of_finish {report : Report} {result : Except Fault Outcome}
    (performed : (finish site stepId report).perform s = (result, t)) :
    Records site.job stepId (Outputs.ofFile report.written) s t := by
  unfold finish at performed
  extract_lets outputs ended at performed
  have ends (u : PUnit) : Does Deed.Prepares (ended u) := by
    dsimp only [ended]
    split
    · exact .bind (log_prepares ..) fun _ => .pure _
    · exact .bind (log_prepares ..) fun _ => .bind goesOnAfterFailure_prepares fun _ => .pure _
  obtain ⟨u, output, -⟩ := perform_showOutput .info "[OUTPUT]" report.output s
  obtain ⟨v, error, -⟩ := perform_showOutput .warning "[STDERR]" report.error u
  have before := (Untouched.of_does (showOutput_prepares ..) output).trans
    (.of_does (showOutput_prepares ..) error)
  rw [perform_bind_ok output, perform_bind_ok error] at performed
  split at performed
  · exact .after before.outputs (records_of_recordOutputs (ends ()) performed)
  · next none =>
    have empty : outputs = [] := by simpa using none
    rw [show Outputs.ofFile report.written = [] from empty]
    exact .of_same (before.trans (.of_does (ends ()) performed)).outputs

/-! ### Mocks -/

theorem call_sameOutputs (m : Mock) (invocation : Invocation) (s : Session) :
    s.SameOutputs ((Deed.call m invocation).after s) :=
  Deed.Acts.spares (d := .call m invocation) trivial s

theorem known_of_get {action : String} {m : Mock}
    (performed : (Registry.get action).perform s = (.ok (some m), t)) :
    Table.find? (Action.name action) t.registry.known = some (some m) := by
  unfold Registry.get at performed
  rw [perform_get_bind] at performed
  dsimp only at performed
  split at performed
  · next found =>
    cases performed
    exact found
  · obtain ⟨loaded, u, -, performed⟩ := perform_bind_eq_ok performed
    cases performed
    dsimp only [Registry.keep]
    rw [Action.name_name, Table.find?_put_self]

def KeepsMocks (d : Deed) : Prop := ∀ s, (d.after s).registry.known = s.registry.known

theorem runMock_keepsMocks (directory name : String) (m : Mock) :
    Does KeepsMocks (runMock site step stepId directory name m) := by
  have logs (level : Level) (message : String) : Does KeepsMocks (log level message) :=
    .log fun s => by rw [Deed.after_log]
  have lists (outputs : Outputs) : Does KeepsMocks (logOutputs outputs) := by
    induction outputs with
    | nil => exact .pure _
    | cons output rest ih => exact .bind (.mask _) fun _ => .bind (logs ..) fun _ => ih
  have asks : Does Deed.Inquires (inputs site step stepId) :=
    (inputs_consults (.all step) stepId).inquires
  refine .bind (asks.mono fun d kind s => ?_) fun given => .bind .get fun s =>
    .bind (.of_deed (.call m _) (fun s => (perform_discard _ s).symm) fun s => ?_) fun told => ?_
  · cases d <;> first
      | exact kind.elim
      | simp [Deed.after, Deed.play, Play.echo, Play.perform_discard]
  · simp [Deed.after, Deed.play, Play.perform_discard, Registry.count]
  · split
    · exact logs ..
    · refine .bind (.fit _) fun texts => .bind (.bind ?_ fun _ => lists _) fun _ => logs ..
      exact .of_deed (.recordStep site.job stepId (Table.ofList texts)) (fun _ => rfl) fun _ => rfl
    · exact logs ..
    · exact .throw _

/-- That a mock returned a mapping for a step, of which these are the outputs. -/
inductive Answers (stepId : String) (m : Mock) (s : Session) : Outputs → Prop where
  | intro {invocation : Invocation} {entries : Mapping} {texts : List (String × String)}
      (own : invocation.stepId = stepId) (dry : invocation.dryRun = s.policy.dryRun)
      (returned : m.respond s.registry.calls invocation = .ok (.map entries))
      (read : mockOutputs entries = .ok texts) : Answers stepId m s (Table.ofList texts)

theorem Answers.after {m : Mock} {u : Session} {outputs : Outputs}
    (answers : Answers stepId m u outputs) (before : Untouched s u) :
    Answers stepId m s outputs := by
  cases answers with
  | intro own dry returned read =>
    exact .intro own (dry.trans before.dry) (before.calls ▸ returned) read

theorem outputs_of_runMock {directory name : String} {m : Mock} {result : Except Fault Unit}
    (performed : (runMock site step stepId directory name m).perform s = (result, t)) :
    s.SameOutputs t ∨
      ∃ outputs, Answers stepId m s outputs ∧ Records site.job stepId outputs s t := by
  have asks : Does Deed.Inquires (inputs site step stepId) :=
    (inputs_consults (.all step) stepId).inquires
  unfold runMock at performed
  rcases perform_bind_cases performed with ⟨fault, failed, rfl⟩ | ⟨given, u, told, performed⟩
  · exact .inl (asks.sameOutputs failed)
  have before := Untouched.of_does (asks.mono fun _ => Deed.Inquires.prepares) told
  rw [perform_get_bind, perform_bind_ok (Deed.perform_call_eq_after ..)] at performed
  have called := before.outputs.trans
    (call_sameOutputs m ⟨given, directory, stepId, u.policy.dryRun⟩ u)
  split at performed
  · exact .inl (called.trans (Untouched.of_does (log_prepares ..) performed).outputs)
  · next entries returned =>
    rcases perform_fit_cases performed with ⟨flaw, -, -, rfl⟩ | ⟨texts, read, performed⟩
    · exact .inl called
    rw [before.calls] at returned
    exact .inr ⟨_, .intro rfl before.dry returned read,
      .after called (records_of_recordOutputs (log_prepares ..) performed)⟩
  · exact .inl (called.trans (Untouched.of_does (log_prepares ..) performed).outputs)
  · cases performed
    exact .inl called

/-! ### Actions and commands -/

theorem load_prepares (r : Registry) (name : String) : Does Deed.Prepares (r.load name) := by
  unfold Registry.load
  split
  · exact .pure _
  · refine .bind (log_prepares ..) fun _ => ?_
    split
    · exact .bind (log_prepares ..) fun _ => .bind (log_prepares ..) fun _ => .pure _
    · refine .bind (log_prepares ..) fun _ => ?_
      split
      · exact .pure _
      · exact .bind (log_prepares ..) fun _ => .bind (log_prepares ..) fun _ => .pure _
      · exact .bind (log_prepares ..) fun _ => .pure _

theorem get_prepares (action : String) : Does Deed.Prepares (Registry.get action) := by
  refine .bind .get fun s => ?_
  dsimp only
  split
  · exact .pure _
  · refine .bind (load_prepares ..) fun m => .bind ?_ fun _ => .pure m
    exact .of_deed (.keepMock (Action.name action) m) (fun _ => rfl) trivial

theorem setUpTerraform_spares {directory : String} {result : Except Fault Unit}
    (performed : (setUpTerraform site step directory).perform s = (result, t)) :
    s.SameOutputs t := by
  have bears : Bears Deed.Acts (fun u => s.SameOutputs u) fun _ u => s.SameOutputs u :=
    ⟨fun h => h.mocks.attends.acts, fun own same => same.trans (own.spares _), fun _ same => same⟩
  exact (maintains_setUpTerraform (.of_acts bears Iff.rfl) directory).kept ⟨rfl, rfl⟩ performed

theorem outputs_of_mocked {directory name action : String} {m : Mock} {u : Session}
    {result : Except Fault Unit} (before : Untouched s u)
    (known : Table.find? (Action.name action) u.registry.known = some (some m))
    (performed : (runMock site step stepId directory name m).perform u = (result, t)) :
    s.SameOutputs t ∨ ∃ m outputs, Table.find? (Action.name action) t.registry.known =
      some (some m) ∧ Answers stepId m s outputs ∧ Records site.job stepId outputs s t := by
  rcases outputs_of_runMock performed with same | ⟨outputs, answers, records⟩
  · exact .inl (before.outputs.trans same)
  · have keeps : Does KeepsMocks (runMock site step stepId directory name m) :=
      runMock_keepsMocks directory name m
    have still := keeps.keeps (·.registry.known) (fun d s keeps => keeps s) u
    rw [performed] at still
    exact .inr ⟨m, outputs, still ▸ known, answers.after before, .after before.outputs records⟩

theorem outputs_of_runAction {action : Value} {directory : String} {result : Except Fault Outcome}
    (performed : (runAction site step action stepId directory).perform s = (result, t)) :
    s.SameOutputs t ∨ (∀ outcome, result = .ok outcome → outcome.status = .success) ∧
      ∃ name m outputs, action.plain = .ok name ∧
        Table.find? (Action.name name) t.registry.known = some (some m) ∧
        Answers stepId m s outputs ∧ Records site.job stepId outputs s t := by
  unfold runAction at performed
  rcases perform_fit_cases performed with ⟨flaw, -, -, rfl⟩ | ⟨name, plain, performed⟩
  · exact .inl ⟨rfl, rfl⟩
  rw [perform_bind_ok (Deed.perform_info_eq_after ..)] at performed
  have named : Untouched s ((Deed.log .info ("Running action: " ++ name)).after s) :=
    .of_does (log_prepares ..) (Deed.perform_info_eq_after ..)
  split at performed
  · rcases perform_bind_cases performed with ⟨fault, failed, rfl⟩ | ⟨_, u, ready, performed⟩
    · exact .inl (named.outputs.trans (setUpTerraform_spares failed))
    · cases performed
      exact .inl (named.outputs.trans (setUpTerraform_spares ready))
  split at performed
  · exact .inl (named.outputs.trans (Untouched.of_does
      (.bind (log_prepares ..) fun _ => .pure _) performed).outputs)
  rcases perform_bind_cases performed with ⟨fault, failed, rfl⟩ | ⟨mock, u, got, performed⟩
  · exact .inl (named.outputs.trans (Untouched.of_does (get_prepares name) failed).outputs)
  have before := named.trans (.of_does (get_prepares name) got)
  cases mock with
  | none =>
    exact .inl (before.outputs.trans (Untouched.of_does
      (.bind (log_prepares ..) fun _ => .pure _) performed).outputs)
  | some m =>
    rcases perform_bind_cases performed with ⟨fault, failed, rfl⟩ | ⟨_, v, ran, performed⟩
    · refine (outputs_of_mocked before (known_of_get got) failed).imp_right ?_
      exact fun ⟨m, outputs, found⟩ => ⟨nofun, name, m, outputs, plain, found⟩
    · cases performed
      refine (outputs_of_mocked before (known_of_get got) ran).imp_right ?_
      rintro ⟨m, outputs, found⟩
      refine ⟨fun outcome same => ?_, name, m, outputs, plain, found⟩
      cases same
      rfl

theorem outputs_of_runCommand {command : Value} {directory : String}
    {result : Except Fault Outcome}
    (performed : (runCommand site step command stepId directory).perform s = (result, t)) :
    Untouched s t ∨ s.policy.dryRun = false ∧
      ∃ (v : Session) (text : String) (environment : Table String String), Untouched s v ∧
        (finish site stepId (v.reports.headD {})).perform
          ((Deed.execute text directory environment).after v) = (result, t) := by
  have filled (scope : Scope) (value : Value) : Does Deed.Prepares (fillValue scope stepId value) :=
    (fillValue_inquires ..).mono fun _ => Deed.Inquires.prepares
  unfold runCommand at performed
  rcases perform_bind_cases performed with ⟨fault, failed, rfl⟩ | ⟨text, u, told, performed⟩
  · exact .inl (.of_does (filled ..) failed)
  have before : Untouched s u := .of_does (filled ..) told
  rw [perform_get_bind] at performed
  cases dry : u.policy.dryRun with
  | true =>
    rw [dry, if_pos rfl] at performed
    exact .inl (before.trans (.of_does (.bind (log_prepares ..) fun _ => .pure _) performed))
  | false =>
    rw [dry, if_neg Bool.false_ne_true, perform_bind_ok (Deed.perform_info_eq_after ..),
      perform_bind_ok (Deed.perform_info_eq_after ..)] at performed
    have shown (first second : String) : Untouched s
        ((Deed.log .info first).after ((Deed.log .info second).after u)) :=
      before.trans (.trans (.of_does (log_prepares ..) (Deed.perform_info_eq_after ..))
        (.of_does (log_prepares ..) (Deed.perform_info_eq_after ..)))
    rcases perform_bind_cases performed with ⟨fault, failed, rfl⟩ | ⟨allowed, v, decided, performed⟩
    · exact .inl ((shown ..).trans (.of_does commandAllowed_prepares failed))
    have decided := (shown ..).trans (.of_does commandAllowed_prepares decided)
    split at performed
    · have surrounds : Does Deed.Prepares (environment site step stepId) :=
        (environment_inquires ..).mono fun _ => Deed.Inquires.prepares
      rcases perform_bind_cases performed with
        ⟨fault, failed, rfl⟩ | ⟨environment, w, ready, performed⟩
      · exact .inl (decided.trans (.of_does surrounds failed))
      rw [perform_bind_ok (Deed.perform_execute_eq_after ..)] at performed
      exact .inr ⟨before.dry ▸ dry, w, text, _, decided.trans (.of_does surrounds ready), performed⟩
    · exact .inl (decided.trans (.of_does (.bind (log_prepares ..) fun _ => .pure _) performed))

/-! ### Steps -/

inductive Deals (site : Site) (step : Value) (stepId : String) (s : Session) :
    Except Fault Outcome → Session → Prop where
  | spares {result : Except Fault Outcome} {t : Session} (same : s.SameOutputs t)
      (idle : IsCommand step → Untouched s t) : Deals site step stepId s result t
  | command {result : Except Fault Outcome} {v t : Session} {text directory : String}
      {environment : Table String String} (stated : IsCommand step)
      (wet : s.policy.dryRun = false) (before : Untouched s v)
      (came : (finish site stepId (v.reports.headD {})).perform
        ((Deed.execute text directory environment).after v) = (result, t)) :
      Deals site step stepId s result t
  | mock {result : Except Fault Outcome} {t : Session} {uses : Value} {action : String}
      {m : Mock} {outputs : Outputs} (stated : member "run" step = .ok .null)
      (used : member "uses" step = .ok uses) (plain : uses.plain = .ok action)
      (known : Table.find? (Action.name action) t.registry.known = some (some m))
      (answers : Answers stepId m s outputs) (records : Records site.job stepId outputs s t)
      (works : Reaches (Deed.Works site.job) s t)
      (done : ∀ outcome, result = .ok outcome → outcome.status = .success) :
      Deals site step stepId s result t

theorem Deals.after {u : Session} {result : Except Fault Outcome}
    {α : Type} {first : Play α} {told : Except Fault α} (inquires : Does Deed.Inquires first)
    (performed : first.perform s = (told, u)) (deals : Deals site step stepId u result t) :
    Deals site step stepId s result t := by
  have before : Untouched s u :=
    .of_does (inquires.mono fun _ => Deed.Inquires.prepares) performed
  cases deals with
  | spares same idle =>
    exact .spares (before.outputs.trans same) fun stated => before.trans (idle stated)
  | command stated wet own came => exact .command stated (before.dry ▸ wet) (before.trans own) came
  | mock stated used plain known answers records works done =>
    exact .mock stated used plain known (answers.after before) (.after before.outputs records)
      ((Reaches.of_does inquires.works performed).trans works) done

theorem Deals.of_untouched {result : Except Fault Outcome} (untouched : Untouched s t) :
    Deals site step stepId s result t := .spares untouched.outputs fun _ => untouched

theorem deals_of_bind {α : Type} {first : Play α} {next : α → Play Outcome}
    {result : Except Fault Outcome} (inquires : Does Deed.Inquires first)
    (performed : (first >>= next).perform s = (result, t))
    (rest : ∀ a u, (next a).perform u = (result, t) → Deals site step stepId u result t) :
    Deals site step stepId s result t := by
  rcases perform_bind_cases performed with ⟨fault, failed, rfl⟩ | ⟨a, u, ended, further⟩
  · exact .of_untouched (.of_does (inquires.mono fun _ => Deed.Inquires.prepares) failed)
  · exact .after inquires ended (rest a u further)

theorem deals_of_perform {name : String} {result : Except Fault Outcome}
    (performed : (perform site step name stepId).perform s = (result, t)) :
    Deals site step stepId s result t := by
  unfold perform at performed
  refine deals_of_bind (directory_inquires ..) performed fun directory u further => ?_
  rcases perform_adopt_cases further with ⟨fault, -, -, rfl⟩ | ⟨command, stated, further⟩
  · exact .of_untouched (.refl _)
  rcases perform_adopt_cases further with ⟨fault, -, -, rfl⟩ | ⟨action, used, further⟩
  · exact .of_untouched (.refl _)
  split at further
  · have uncommanded : ¬IsCommand step := fun ⟨other, own, present⟩ => by
      rw [stated] at own
      exact present (Except.ok.inj own).symm
    split at further
    · rcases outputs_of_runAction further with same | ⟨done, name, m, outputs, plain, known,
        answers, records⟩
      · exact .spares same fun own => absurd own uncommanded
      · exact .mock stated used plain known answers records
          (.of_does (runAction_works ..) further) done
    · rw [perform_get_bind] at further
      split at further
      · exact .of_untouched (.of_does (.bind (log_prepares ..) fun _ => .pure _) further)
      · refine .of_untouched (.of_does (.bind (log_prepares ..) fun _ => .bind ?_ fun _ =>
          .pure _) further)
        exact .of_deed .pause (fun _ => rfl) trivial
  · next present =>
    rcases outputs_of_runCommand further with same | ⟨wet, v, text, environment, before, came⟩
    · exact .of_untouched same
    · exact .command ⟨_, stated, present⟩ wet before came

theorem deals_of_run {index : Nat} {result : Except Fault Outcome}
    (performed : (run site step index).perform s = (result, t)) :
    Untouched s t ∨ ∃ stepId, id step index = .ok stepId ∧ Deals site step stepId s result t := by
  unfold run at performed
  rcases perform_adopt_cases performed with ⟨fault, -, -, rfl⟩ | ⟨name, -, performed⟩
  · exact .inl (.refl _)
  rcases perform_adopt_cases performed with ⟨fault, -, -, rfl⟩ | ⟨stepId, named, performed⟩
  · exact .inl (.refl _)
  refine .inr ⟨stepId, named, ?_⟩
  refine deals_of_bind (.log (Deed.inquires_info _)) performed fun _ u further => ?_
  refine deals_of_bind (.adopt _) further fun condition v further => ?_
  refine deals_of_bind (Condition.holds_inquires ..) further fun holds w further => ?_
  split at further
  · exact deals_of_perform further
  · exact .of_untouched (.of_does (.bind (.fit _) fun _ => .bind (log_prepares ..) fun _ =>
      .pure _) further)

/-! ### The frame -/

/-- What a step reported between two sessions: what its command left in its file, or what its mock
returned. -/
inductive Reports (step : Value) (index : Nat) (s t : Session) : Outputs → Prop where
  | nothing (idle : IsCommand step → ∀ event ∈ t.since s, event.isExec = false) :
      Reports step index s t []
  | command (stated : IsCommand step) (executed : ∃ event ∈ t.since s, event.isExec = true) :
      Reports step index s t (Outputs.ofFile (s.reports.headD {}).written)
  | mock {uses : Value} {action stepId : String} {m : Mock} {outputs : Outputs}
      (stated : member "run" step = .ok .null) (used : member "uses" step = .ok uses)
      (plain : uses.plain = .ok action) (named : id step index = .ok stepId)
      (known : Table.find? (Action.name action) t.registry.known = some (some m))
      (answers : Answers stepId m s outputs) : Reports step index s t outputs

/-- That a step is skipped, that the user quits when asked about its command, or that its command is
only shown. -/
inductive Withheld (step : Value) (s : Session) (result : Except Fault Outcome) (t : Session) :
    Prop where
  | skipped {halts : Bool} (same : result = .ok ⟨.skipped, halts⟩)
  | quit {answer : String} (asked : .ask commandQuestion answer ∈ t.since s)
      (leaves : Confirmation.parse answer = .quit)
  | shown (stated : IsCommand step) (dry : s.policy.dryRun = true)

variable {index : Nat} {result : Except Fault Outcome}

theorem finish_ofStep (site : Site) (stepId : String) (report : Report) :
    Does (Deed.OfStep site.job) (finish site stepId report) := by
  have consults : Consults (Deed.OfStep site.job) (fun _ => True) (finish site stepId report) :=
    finish_consults site stepId report
  exact consults.does fun _ own => own.works.ofStep

/-- A command that came back is among the events, and its step is neither skipped nor left by an
answer to the question about the command. -/
theorem not_withheld_of_came {v : Session} {text directory : String}
    {environment : Table String String} (stated : IsCommand step)
    (performed : (run site step index).perform s = (result, t))
    (wet : s.policy.dryRun = false) (before : Untouched s v)
    (came : (finish site stepId (v.reports.headD {})).perform
      ((Deed.execute text directory environment).after v) = (result, t)) :
    (∃ event ∈ t.since s, event.isExec = true) ∧ ¬Withheld step s result t := by
  obtain ⟨new, added, -⟩ := before.trace
  obtain ⟨deeds, -, same⟩ := Reaches.of_does (finish_ofStep site stepId _) came
  obtain ⟨more, adds, -⟩ :=
    Deed.all_events deeds ((Deed.execute text directory environment).after v)
  rw [← same, Deed.after_trace, added] at adds
  have executed : ∃ event ∈ t.since s, event.isExec = true := by
    refine ⟨.exec text directory environment v.context.toolchain, ?_, rfl⟩
    have added : t.trace = (more ++ .exec text directory environment v.context.toolchain :: new) ++
        s.trace := by
      rw [adds]
      simp [Deed.events]
    rw [Session.since_eq added]
    simp
  refine ⟨executed, fun withheld => ?_⟩
  cases withheld with
  | skipped same =>
    obtain ⟨u, -, ended⟩ := ended_of_finish came
    rw [same] at ended
    cases ended
  | quit asked leaves =>
    obtain ⟨events, told⟩ := (course_of_run stated performed).told
    rw [Session.since_eq told.trace] at asked executed
    cases told.consented with
    | idle none =>
      obtain ⟨event, member, exec⟩ := executed
      rw [none event member] at exec
      cases exec
    | executed same only agreed granted =>
      have grants := granted _ asked
      rw [leaves] at grants
      cases grants
  | shown stated dry =>
    rw [wet] at dry
    cases dry

theorem unconfirmed_of_works {job : Scalar} (works : Reaches (Deed.Works job) s t) :
    ∀ event ∈ t.since s, event.isConfirmation = false := by
  obtain ⟨deeds, kind, rfl⟩ := works
  obtain ⟨new, added, own⟩ := Deed.all_events deeds s
  rw [Session.since_eq added]
  intro event member
  obtain ⟨d, done, u, -, left⟩ := own event member
  have works := kind d done
  cases d with
  | log => exact (Event.Aside.of_mem_logged left).unconfirmed
  | ask =>
    rw [List.mem_singleton.mp left]
    exact works
  | echo | execute | pause =>
    rw [List.mem_singleton.mp left]
    rfl
  | call =>
    obtain ⟨name, -, rfl⟩ := by simpa [Deed.events] using left
    rfl
  | _ => cases left

theorem Reports.distinct {reported : Outputs} (reports : Reports step index s t reported) :
    Table.ofList reported = reported := by
  cases reports with
  | nothing => rfl
  | command =>
    unfold Outputs.ofFile
    split
    · exact Table.ofList_ofList _
    · rfl
  | mock stated used plain named known answers =>
    cases answers
    exact Table.ofList_ofList _

/-- What a step leaves as it found it: the outputs of jobs and of all other steps, and of its own
those that it did not report. -/
structure Framed (site : Site) (step : Value) (index : Nat) (reported : Outputs) (s t : Session) :
    Prop where
  jobs : t.context.jobs = s.context.jobs
  others : ∀ job stepId name, ¬((site.job == job) = true ∧ id step index = .ok stepId) →
    t.context.stepOutput? job stepId name = s.context.stepOutput? job stepId name
  own : ∀ job stepId name, (site.job == job) = true → id step index = .ok stepId →
    t.context.stepOutput? job stepId name =
      (Table.find? name reported).or (s.context.stepOutput? job stepId name)

theorem Framed.of_same (same : s.SameOutputs t) : Framed site step index [] s t where
  jobs := same.jobs
  others job stepId name _ := same.stepOutput? job stepId name
  own job stepId name _ _ := (same.stepOutput? job stepId name).trans (Option.none_or ..).symm

theorem Framed.of_records {reported : Outputs} (named : id step index = .ok stepId)
    (reports : Reports step index s t reported) (records : Records site.job stepId reported s t) :
    Framed site step index reported s t where
  jobs := records.jobs
  others job other name apart := by
    rw [records.steps, Context.stepOutput?_recordStep, if_neg]
    exact fun ⟨same, equal⟩ => apart ⟨same, equal ▸ named⟩
  own job other name same own := by
    obtain rfl : stepId = other := Except.ok.inj (named.symm.trans own)
    rw [records.steps, Context.stepOutput?_recordStep, if_pos ⟨same, rfl⟩, reports.distinct]

/-- **Step frame.** However a step ends, it leaves the outputs of jobs and of all other steps as
they are, and of its own outputs it changes only those that its command or its mock reported, to the
values reported. A step that is skipped, one at whose command the user quits, and one whose command
a dry run only shows change none. -/
theorem steps_keep_to_their_outputs (performed : (run site step index).perform s = (result, t)) :
    ∃ reported, Reports step index s t reported ∧ Framed site step index reported s t ∧
      (Withheld step s result t → s.SameOutputs t) := by
  rcases deals_of_run performed with untouched | ⟨stepId, named, deals⟩
  · exact ⟨[], .nothing fun _ => untouched.unexecuted, .of_same untouched.outputs,
      fun _ => untouched.outputs⟩
  cases deals with
  | spares same idle =>
    exact ⟨[], .nothing fun stated => (idle stated).unexecuted, .of_same same, fun _ => same⟩
  | command stated wet before came =>
    obtain ⟨executed, goes⟩ := not_withheld_of_came stated performed wet before came
    have records := records_of_finish came
    rw [before.reports] at records
    have reports : Reports step index s t _ := .command stated executed
    refine ⟨_, reports, .of_records named reports (.after (before.outputs.trans ?_) records),
      fun withheld => absurd withheld goes⟩
    constructor <;> simp [Deed.after, Deed.play, Play.perform_discard]
  | mock stated used plain known answers records works done =>
    have reports : Reports step index s t _ := .mock stated used plain named known answers
    refine ⟨_, reports, .of_records named reports records, fun withheld => ?_⟩
    cases withheld with
    | skipped same => cases done _ same
    | quit asked leaves =>
      have other := unconfirmed_of_works works _ asked
      rw [Event.isConfirmation, commandQuestion_confirms] at other
      cases other
    | shown own dry =>
      obtain ⟨command, own, present⟩ := own
      rw [stated] at own
      exact absurd (Except.ok.inj own).symm present

def buildSite : Site := ⟨[], "/", .str "build", .map [], [], []⟩

def makeStep : Value := .map [(.str "id", .str "a"), (.str "run", .str "make")]

/-- A session in which a step of another job has the same id, and the next command reports an output
under the same name. -/
def makingSession : Session where
  policy := { runAllCommands := true }
  context := Context.recordStep (.str "test") "a" [("v", "0")] {}
  reports := [{ written := some "v=1".toUTF8.data.toList }]

theorem steps_keep_to_their_outputs_make :
    ∃ t, (run buildSite makeStep 0).perform makingSession = (.ok ⟨.success, false⟩, t) ∧
      t.context.stepOutput? (.str "build") "a" "v" = some "1" ∧
      t.context.stepOutput? (.str "test") "a" "v" = some "0" ∧
      ∃ reported, Reports makeStep 0 makingSession t reported ∧
        Framed buildSite makeStep 0 reported makingSession t ∧
        (Withheld makeStep makingSession (.ok ⟨.success, false⟩) t →
          makingSession.SameOutputs t) := by
  have performed : (run buildSite makeStep 0).perform makingSession = (.ok ⟨.success, false⟩, _) :=
    perform_eq_of_toOption (by decide +kernel)
  exact ⟨_, performed, by decide +kernel, by decide +kernel, steps_keep_to_their_outputs performed⟩

end Step
end Rehearsal
