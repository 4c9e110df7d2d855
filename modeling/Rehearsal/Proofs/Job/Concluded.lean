import Rehearsal.Proofs.Context.Lookup
import Rehearsal.Proofs.Job.Stages
import Rehearsal.Proofs.Play.Resolving
import Rehearsal.Proofs.Run.Results
import Rehearsal.Proofs.Variable.JobOutput

/-! The outputs of a job change only at the end of an instance that came through its steps: it
resolves the outputs that the job states and records them one after the other.
`InstanceRun.Concludes` lists the ways in which an instance can go, and `InstanceRun.Ran.concludes`
says that there is no other. -/

namespace Rehearsal

open Play

/-! ### Outputs that jobs export

A job exports an output of one of its steps when it states the placeholder of that output. What is
then on record for the job is what was on record for the step: `Job.Exports.recorded`.
-/

namespace Job

/-- That a job exports an output of one of its steps: it states the placeholder of the output under
a name, and nothing after it under the same name. -/
structure Exports (scope : Scope) (definition : Mapping) (step output name : String)
    (s t : Session) : Prop where
  stated : ∃ before value after text, (Table.find? (.str "outputs") definition).map Value.opened =
      some (.map (before ++ (.str name, value) :: after)) ∧ value.expressionText = .ok text ∧
    Reference.stepPlaceholder? text = some (step, output) ∧
    ∀ entry ∈ after, entry.1.plain ≠ .ok name
  ran : (recordOutputs scope definition).perform s = (.ok (), t)

variable {scope : Scope} {step output name text : String} {s t : Session}

theorem exists_of_recordEach {key : Scalar} {value : Value} {rest : Mapping}
    (ran : (recordEach scope ((key, value) :: rest)).perform s = (.ok (), t)) :
    ∃ text name u v, (resolveJobOutput scope value).perform s = (.ok text, u) ∧
      key.plain = .ok name ∧ (recordEach scope rest).perform v = (.ok (), t) ∧
      v.context = u.context.recordJob scope.job name text := by
  rw [recordEach] at ran
  obtain ⟨text, u, resolved, ran⟩ := perform_bind_eq_ok ran
  obtain ⟨name, v, fits, ran⟩ := perform_bind_eq_ok ran
  rw [perform_fit] at fits
  cases told : key.plain with
  | error refusal =>
    rw [told] at fits
    cases fits
  | ok own =>
    rw [told] at fits
    cases fits
    rw [perform_bind_ok (perform_modifyContext ..), perform_bind_ok (perform_mask ..),
      perform_bind_ok (Deed.perform_info_eq_after ..)] at ran
    refine ⟨text, name, u, _, resolved, rfl, ran, ?_⟩
    rw [Deed.after_log]

theorem exists_of_recordEach_append {before rest : Mapping}
    (ran : (recordEach scope (before ++ rest)).perform s = (.ok (), t)) :
    ∃ u, (recordEach scope rest).perform u = (.ok (), t) ∧ u.context.steps = s.context.steps := by
  induction before generalizing s with
  | nil => exact ⟨s, ran, rfl⟩
  | cons entry before ih =>
    obtain ⟨text, name, u, v, resolved, -, further, context⟩ := exists_of_recordEach ran
    obtain ⟨w, ran, same⟩ := ih further
    have steps := ((resolveJobOutput_inquires ..).sameOutputs resolved).steps
    exact ⟨w, ran, same.trans ((congrArg Context.steps context).trans steps)⟩

theorem jobOutput?_of_recordEach {entries : Mapping}
    (absent : ∀ entry ∈ entries, entry.1.plain ≠ .ok name)
    (ran : (recordEach scope entries).perform s = (.ok (), t)) :
    t.context.jobOutput? scope.job name = s.context.jobOutput? scope.job name := by
  induction entries generalizing s with
  | nil =>
    cases ran
    rfl
  | cons entry rest ih =>
    obtain ⟨own, others⟩ := List.forall_mem_cons.mp absent
    obtain ⟨text, other, u, v, resolved, told, further, context⟩ := exists_of_recordEach ran
    have ne : other ≠ name := fun same => own (same ▸ told)
    have outputs := (resolveJobOutput_inquires ..).sameOutputs resolved
    rw [ih others further, context, Context.jobOutput?_recordJob, if_neg fun both => ne both.2,
      outputs.jobOutput?]

theorem Exports.recorded {definition : Mapping}
    (exports : Exports scope definition step output name s t)
    (known : s.context.stepOutput? scope.job step output = some text) :
    t.context.jobOutput? scope.job name = some text := by
  obtain ⟨before, value, after, written, stated, told, found, last⟩ := exports.stated
  have entries : (recordEach scope (before ++ (.str name, value) :: after)).perform
      ((Deed.log .info "[OUTPUTS]").after s) = (.ok (), t) := by
    have ran := exports.ran
    rw [recordOutputs, stated] at ran
    cases before with
    | nil => rwa [List.nil_append, perform_bind_ok (Deed.perform_info_eq_after ..)] at ran
    | cons entry before =>
      rwa [List.cons_append, perform_bind_ok (Deed.perform_info_eq_after ..)] at ran
  obtain ⟨u, ran, steps⟩ := exists_of_recordEach_append entries
  obtain ⟨own, other, v, w, resolved, plain, further, context⟩ := exists_of_recordEach ran
  obtain rfl : name = other := Except.ok.inj plain
  have still : u.context.stepOutput? scope.job step output = some text := by
    rw [Context.stepOutput?, steps, Deed.after_log]
    exact known
  obtain ⟨x, given, -⟩ := perform_resolveJobOutput_of_stepPlaceholder? told found still
  obtain rfl : own = text := by
    rw [given] at resolved
    exact (Except.ok.inj (congrArg Prod.fst resolved)).symm
  rw [jobOutput?_of_recordEach last further, context, Context.jobOutput?_recordJob,
    if_pos ⟨BEq.rfl, rfl⟩]

end Job

/-! ### Ways to conclude -/

def Deed.SparesJobs : Deed → Prop
  | recordJob _ _ _ => False
  | _ => True

theorem Deed.SparesJobs.after_jobs {d : Deed} (h : d.SparesJobs) (s : Session) :
    (d.after s).context.jobs = s.context.jobs := by
  cases d <;> first
    | exact h.elim
    | simp [after, play, Play.echo, Play.perform_discard, Context.remember, Context.recordStep,
        Job.skip, Job.failLast]

theorem Deed.Inquires.sparesJobs {d : Deed} (h : d.Inquires) : d.SparesJobs := by
  cases d <;> first | exact h.elim | trivial

theorem Reaches.jobs {s t : Session} (reaches : Reaches Deed.SparesJobs s t) :
    t.context.jobs = s.context.jobs := by
  obtain ⟨deeds, kind, rfl⟩ := reaches
  exact Deed.all_same (·.context.jobs) (fun d s own => own.after_jobs s) kind s

namespace Job

open Step (Site)

variable {scope : Scope} {site : Site} {definition : Mapping} {s t u : Session}

def statedOutputs (definition : Mapping) : Mapping :=
  match (Table.find? (.str "outputs") definition).map Value.opened with
  | some (.map entries) => entries
  | _ => []

/-- What the outputs that a job states resolve to, one after the other, each of them being recorded
before the next one is resolved. -/
inductive Resolved (scope : Scope) :
    Session → Mapping → List (String × String) → Session → Prop where
  | none {s t : Session} (apart : Reaches Deed.Inquires s t) : Resolved scope s [] [] t
  | next {s t u v w : Session} {key : Scalar} {value : Value} {rest : Mapping}
      {name text : String} {outputs : List (String × String)} (apart : Reaches Deed.Inquires s t)
      (resolved : (resolveJobOutput scope value).perform t = (.ok text, u))
      (named : key.plain = .ok name)
      (recorded : v.context = u.context.recordJob scope.job name text)
      (later : Resolved scope v rest outputs w) :
      Resolved scope s ((key, value) :: rest) ((name, text) :: outputs) w

theorem resolved_of_recordEach {entries : Mapping}
    (ran : (recordEach scope entries).perform s = (.ok (), t)) :
    ∃ outputs, Resolved scope s entries outputs t := by
  induction entries generalizing s with
  | nil =>
    cases ran
    exact ⟨[], .none (.refl _)⟩
  | cons entry rest ih =>
    obtain ⟨text, name, u, v, resolved, named, ran, context⟩ := exists_of_recordEach ran
    obtain ⟨outputs, later⟩ := ih ran
    exact ⟨(name, text) :: outputs, .next (.refl _) resolved named context later⟩

theorem Resolved.after {entries : Mapping} {outputs : List (String × String)}
    (before : Reaches Deed.Inquires s t) (resolved : Resolved scope t entries outputs u) :
    Resolved scope s entries outputs u := by
  cases resolved with
  | none apart => exact .none (before.trans apart)
  | next apart own named recorded later => exact .next (before.trans apart) own named recorded later

theorem resolved_of_recordOutputs
    (ran : (recordOutputs scope definition).perform s = (.ok (), t)) :
    ∃ outputs, Resolved scope s (statedOutputs definition) outputs t := by
  unfold recordOutputs at ran
  unfold statedOutputs
  split at ran
  · next found =>
    rw [found]
    rw [perform_bind_ok (Deed.perform_info_eq_after ..)] at ran
    obtain ⟨outputs, resolved⟩ := resolved_of_recordEach ran
    exact ⟨outputs, resolved.after
      (.of_does (info_consults _).inquires (Deed.perform_info_eq_after ..))⟩
  · next other =>
    cases ran
    refine ⟨[], ?_⟩
    split
    · next entries found =>
      cases entries with
      | nil => exact .none (.refl _)
      | cons entry entries => exact absurd found (other entry entries)
    · exact .none (.refl _)

theorem Resolved.names {entries : Mapping} {outputs : List (String × String)}
    (resolved : Resolved scope s entries outputs t) :
    entries.map (·.1.plain) = outputs.map fun output => .ok output.1 := by
  induction resolved with
  | none => rfl
  | next apart own named recorded later ih => simp [named, ih]

/-- Resolving outputs leaves those of other jobs as they are, and hides those that the job had. -/
theorem Resolved.jobOutput? {entries : Mapping} {outputs : List (String × String)}
    (resolved : Resolved scope s entries outputs t) (job : Scalar) (name : String) :
    t.context.jobOutput? job name =
      if scope.job == job then
        (Table.find? name (Table.ofList outputs)).or (s.context.jobOutput? job name)
      else s.context.jobOutput? job name := by
  induction resolved with
  | none apart =>
    rw [Context.jobOutput?_congr (apart.mono Deed.Inquires.sparesJobs).jobs]
    exact (ite_self _).symm
  | @next s t u v w key value rest own text outputs apart found named recorded later ih =>
    have before : Reaches Deed.Inquires s u :=
      apart.trans (.of_does (resolveJobOutput_inquires ..) found)
    rw [ih, recorded, Context.jobOutput?_recordJob,
      Context.jobOutput?_congr (before.mono Deed.Inquires.sparesJobs).jobs, Table.find?_ofList_cons]
    by_cases mine : (scope.job == job) = true
    · simp only [mine, true_and, if_true, beq_iff_eq, Option.or_assoc]
      congr 1
      split <;> rfl
    · simp [mine]

/-! ### Instances -/

theorem Opened.reaches {name : Scalar} (opened : Opened name s t) :
    Reaches Deed.SparesJobs s t := by
  have start : Reaches Deed.SparesJobs s ((Deed.start name).after s) :=
    (Reaches.refl s).deed (d := .start name) trivial
  refine start.trans (Reaches.mono opened fun {d} own => ?_)
  cases d <;> first | exact own.elim | trivial

theorem reaches_of_runSteps {items : List Value} {index : Nat} {result : Except Fault Bool}
    (performed : (runSteps site items index).perform s = (result, t)) :
    Reaches Deed.SparesJobs s t := by
  induction items generalizing index s with
  | nil =>
    cases performed
    exact .refl _
  | cons step rest ih =>
    have runs {result : Except Fault Bool} {u : Session}
        (ran : (runStep site step index).perform s = (result, u)) :
        Reaches Deed.SparesJobs s u :=
      (reaches_of_runStep ran).mono fun {d} own => by
        cases d <;> first | exact own.elim | trivial
    unfold runSteps at performed
    rcases perform_bind_cases performed with ⟨fault, failed, rfl⟩ | ⟨goes, u, ran, further⟩
    · exact runs failed
    · split at further
      · exact (runs ran).trans (ih further)
      · cases further
        exact runs ran

end Job

namespace InstanceRun

open Job

def Stepped (r : InstanceRun) (u : Session) : Prop :=
  ∃ (items : List Value) (surroundings : Table String String) (before : Session),
    steps r.definition = .ok items ∧
    (runSteps { r.site with jobEnvironment := surroundings } items 0).perform before = (.ok true, u)

/-- How an instance concludes, and what the outputs that its job states resolved to at its end if it
reached that. -/
inductive Concludes (r : InstanceRun) : Option (List (String × String)) → Prop where
  | skipped (status : r.entry.status = .skipped)
      (kept : Reaches Deed.SparesJobs r.start r.finish) : r.Concludes none
  | halted {items : List Value} {surroundings : Table String String} {u v : Session}
      (stated : steps r.definition = .ok items)
      (ran : (runSteps { r.site with jobEnvironment := surroundings } items 0).perform u =
        (.ok false, v)) (kept : Reaches Deed.SparesJobs r.start r.finish) : r.Concludes none
  | broken {fault : Fault} (fails : r.result = .error fault)
      (kept : Reaches Deed.SparesJobs r.start r.finish) : r.Concludes none
  | cut {fault : Fault} {u : Session} (fails : r.result = .error fault)
      (before : Reaches Deed.SparesJobs r.start u) (stepped : r.Stepped u)
      (ran : (recordOutputs r.site.scope r.definition).perform u = (.error fault, r.finish)) :
      r.Concludes none
  | ended {outputs : List (String × String)} {u v : Session} (comes : r.result = .ok ())
      (before : Reaches Deed.SparesJobs r.start u) (stepped : r.Stepped u)
      (resolved : Resolved r.site.scope u (statedOutputs r.definition) outputs v)
      (after : Reaches Deed.Inquires v r.finish) : r.Concludes (some outputs)

variable {workflow jobs : Mapping} {r : InstanceRun}

theorem concludes_of_perform {title : String} {u : Session}
    (before : Reaches Deed.SparesJobs r.start u)
    (performed : (Job.perform r.site r.definition title).perform u = (r.result, r.finish)) :
    ∃ exported, r.Concludes exported := by
  have spared {v w : Session} (reaches : Reaches Deed.Inquires v w) :
      Reaches Deed.SparesJobs v w := reaches.mono Deed.Inquires.sparesJobs
  have said {v w : Session} {text : String} {told : Except Fault Unit}
      (told : (info text).perform v = (told, w)) : Reaches Deed.Inquires v w :=
    .of_does (info_consults _).inquires told
  unfold Job.perform at performed
  rcases perform_bind_cases performed with ⟨fault, failed, same⟩ | ⟨surroundings, v, found, further⟩
  · exact ⟨none, .broken same (before.trans (spared (.of_does (environment_inquires ..) failed)))⟩
  have before := before.trans (spared (.of_does (environment_inquires ..) found))
  rcases perform_adopt_cases further with ⟨fault, -, same, kept⟩ | ⟨items, stated, further⟩
  · exact ⟨none, .broken same (kept ▸ before)⟩
  rcases perform_bind_cases further with ⟨fault, failed, same⟩ | ⟨ended, w, ran, further⟩
  · exact ⟨none, .broken same (before.trans (reaches_of_runSteps failed))⟩
  have before := before.trans (reaches_of_runSteps ran)
  cases ended with
  | false => exact ⟨none, .halted stated ran (before.trans (spared (said further)))⟩
  | true =>
    have stepped : r.Stepped w := ⟨items, surroundings, v, stated, ran⟩
    rcases perform_bind_cases further with ⟨fault, failed, same⟩ | ⟨_, x, recorded, further⟩
    · exact ⟨none, .cut same before stepped failed⟩
    · obtain ⟨outputs, resolved⟩ := resolved_of_recordOutputs recorded
      have comes : r.result = .ok () :=
        (Prod.mk.inj ((Deed.perform_info_eq_after ..).symm.trans further)).1.symm
      exact ⟨some outputs, .ended comes before stepped resolved (said further)⟩

theorem Ran.concludes (ran : r.Ran workflow jobs) : ∃ exported, r.Concludes exported := by
  have same {entry : JobResult} (placed : r.finish.ledger.jobs = r.start.ledger.jobs ++ [entry]) :
      r.entry = entry := ran.entry_eq placed
  have opening := opening_of_runInstance ran.ran
  obtain ⟨site, definition, start, entry, result, finish⟩ := r
  cases opening with
  | unnamed untold => exact ⟨none, .broken rfl (.refl _)⟩
  | broken named opened => exact ⟨none, .broken rfl opened.reaches⟩
  | skipped named opened =>
    have status : entry.status = .skipped := congrArg JobResult.status (same opened.skip.1)
    exact ⟨none, .skipped status (opened.reaches.deed (d := .skip) trivial)⟩
  | @refused name title u finish named opened said left =>
    obtain ⟨v, opened, skipped⟩ := opened.refusal title
    refine ⟨none, .broken rfl ?_⟩
    rw [left.trans skipped]
    exact opened.reaches.deed (d := .skip) trivial
  | performed named opened performed => exact concludes_of_perform opened.reaches performed

end InstanceRun
end Rehearsal
