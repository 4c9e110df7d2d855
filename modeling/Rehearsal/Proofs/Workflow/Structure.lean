import Rehearsal.Proofs.Workflow.Needs
import Rehearsal.Proofs.Yaml.Distinct
import Rehearsal.Step.Run
import Rehearsal.Workflow.Loading

/-! What a run relies on in a workflow: its variables are a mapping, its steps are mappings with a
mapping of arguments, if any. The checks tell all of this, except for the steps of a job that uses
another workflow, which are not looked at. -/

namespace Rehearsal

/-- That a step is a mapping, and so are the arguments of its action. -/
structure Step.Shaped (step : Value) : Prop where
  mapping : ∃ entries, step.opened = .map entries ∧
    ∀ arguments, Table.find? (.str "with") entries = some arguments →
      ∃ inputs, arguments.opened = .map inputs

namespace Workflow

theorem opened_of_isMapping {v : Value} (mapping : isMapping v = true) :
    ∃ entries, v.opened = .map entries := by
  unfold isMapping Value.mapping? at mapping
  split at mapping
  · next entries same => exact ⟨entries, same⟩
  · cases mapping

theorem of_demand {ok : Bool} {message path : String}
    (fine : Check.demand ok message path = .ok []) : ok = true := by
  cases ok with
  | true => rfl
  | false => cases fine

theorem check_of_checkField {entries : Mapping} {field path : String}
    {check : String → Value → Check} (fine : checkField entries field path check = .ok [])
    {value : Value} (found : Table.find? (.str field) entries = some value) :
    check (memberPath path field) value = .ok [] := by
  unfold checkField at fine
  rwa [found] at fine

theorem opened_of_checkEnvironment {path : String} {environment : Value}
    (fine : checkEnvironment path environment = .ok []) :
    ∃ entries, environment.opened = .map entries := by
  unfold checkEnvironment at fine
  split at fine
  · next entries same => exact ⟨entries, same⟩
  · cases fine

theorem shaped_of_checkStep {path : String} {step : Value} (fine : checkStep path step = .ok []) :
    Step.Shaped step := by
  unfold checkStep at fine
  split at fine
  · next entries same =>
    refine ⟨entries, same, fun arguments found => ?_⟩
    have checked := Check.eq_nil_of_all fine
      (checkField entries "with" path fun path arguments =>
        Check.demand (isMapping arguments) "'with' must be a mapping" path) (by simp)
    exact opened_of_isMapping (of_demand (check_of_checkField checked found))
  · cases fine

theorem shaped_of_checkSteps {path : String} {stated : Value}
    (fine : checkSteps path stated = .ok []) :
    ∃ items, stated.opened = .list items ∧ ∀ step ∈ items, Step.Shaped step := by
  unfold checkSteps at fine
  split at fine
  · cases fine
  · split at fine
    · next items same =>
      refine ⟨items, same, fun step member => ?_⟩
      obtain ⟨i, within, found⟩ := List.mem_iff_getElem.mp member
      have placed : (step, i) ∈ items.zipIdx := by
        rw [List.mk_mem_zipIdx_iff_getElem?, List.getElem?_eq_getElem within, found]
      have checked := Check.eq_nil_of_all fine _ (List.mem_map_of_mem placed)
      exact shaped_of_checkStep checked
    · cases fine

/-- The steps of a job in which nothing is wrong. Those of a job that uses a workflow are not looked
at. -/
theorem steps_of_checkJob {jobs : Mapping} {path : String} {job : Value}
    (fine : checkJob jobs path job = .ok [])
    (called : (job.field? "uses").isSome = true → ∀ stated, job.field? "steps" = some stated →
      ∃ path, checkSteps path stated = .ok []) :
    ∃ items, Job.steps (job.mapping?.getD []) = .ok items ∧ ∀ step ∈ items, Step.Shaped step := by
  unfold checkJob at fine
  split at fine
  · next entries same =>
    have mapping : job.mapping? = some entries := by simp [Value.mapping?, same]
    have field (name : String) : job.field? name = Table.find? (.str name) entries := by
      simp [Value.field?, mapping]
    rw [field, field] at called
    rw [mapping]
    unfold Job.steps
    dsimp only [Option.getD_some]
    cases stated : Table.find? (.str "steps") entries with
    | none => exact ⟨[], rfl, by simp⟩
    | some steps =>
      have looked := Check.eq_nil_of_all fine
        (if Table.has (.str "uses") entries then .ok []
          else checkSteps (memberPath path "steps")
            ((Table.find? (.str "steps") entries).getD .null)) (by simp)
      have checked : ∃ path, checkSteps path steps = .ok [] := by
        split at looked
        · next uses => exact called uses steps stated
        · rw [stated] at looked
          exact ⟨_, looked⟩
      obtain ⟨path, checked⟩ := checked
      obtain ⟨items, same, shaped⟩ := shaped_of_checkSteps checked
      by_cases present : steps.isPresent = true
      · exact ⟨items, by simp [present, same], shaped⟩
      · exact ⟨[], by simp [present], by simp⟩
  · cases fine

variable {document : Value} {workflow : Mapping}

theorem searched_of_valid (valid : problems document = .ok [])
    (opened : document.mapping? = some workflow) (name : String) (fault : Fault) :
    environmentValue? workflow name ≠ .error fault := by
  unfold problems at valid
  split at valid
  · next entries content =>
    obtain rfl : entries = workflow := by simpa [Value.mapping?, content] using opened
    have fine := Check.eq_nil_of_all valid (checkField entries "env" "" checkEnvironment) (by simp)
    unfold environmentValue?
    cases stated : Table.find? (.str "env") entries with
    | none =>
      intro failed
      cases failed
    | some environment =>
      obtain ⟨entries, same⟩ := opened_of_checkEnvironment (check_of_checkField fine stated)
      rw [Option.getD_some, same]
      intro failed
      cases failed
  · cases valid

end Workflow

/-! ### Loaded workflows

A loaded workflow is the mapping of a document in which nothing is wrong. It states its jobs, each
under a key of its own: `document_of_load`.
-/

namespace Value

theorem Proper.opened {v : Value} (proper : v.Proper) : v.opened.Proper := by
  cases proper with
  | again inside => exact inside
  | scalar s => exact .scalar s
  | set members => exact .set members
  | list parts => exact .list parts
  | map distinct parts => exact .map distinct parts
  | pair first second => exact .pair first second

theorem Proper.mapping {v : Value} {entries : Mapping} (proper : v.Proper)
    (opened : v.mapping? = some entries) : (Value.map entries).Proper := by
  have content := proper.opened
  unfold mapping? at opened
  split at opened
  · next stated same =>
    cases opened
    rwa [same] at content
  · cases opened

theorem Proper.find? {entries : Mapping} {key : Scalar} {v : Value}
    (proper : (Value.map entries).Proper) (found : Table.find? key entries = some v) :
    v.Proper := by
  obtain ⟨spelling, member, -⟩ := Table.mem_of_find?_eq_some found
  cases proper with
  | map distinct parts => exact parts _ member

end Value

namespace Workflow

variable {document : Value} {workflow jobs : Mapping}

theorem distinct_jobs (proper : document.Proper) (opened : document.mapping? = some workflow)
    (mapped : Run.jobs workflow = .ok jobs) : Table.Distinct jobs := by
  unfold Run.jobs at mapped
  dsimp only at mapped
  split at mapped
  · cases mapped
    exact .nil
  · cases found : Table.find? (.str "jobs") workflow with
    | none =>
      rw [found] at mapped
      cases mapped
    | some stated =>
      rw [found] at mapped
      have own := ((proper.mapping opened).find? found).opened
      simp only [Option.getD_some] at mapped
      split at mapped
      · next entries same =>
        cases mapped
        rw [same] at own
        cases own with
        | map distinct parts => exact distinct
      all_goals cases mapped

theorem document_of_load {content : String} (loaded : load content = .ok workflow) :
    ∃ document, problems document = .ok [] ∧ document.mapping? = some workflow ∧
      document.Proper := by
  unfold load at loaded
  dsimp only at loaded
  split at loaded
  · next document parsed =>
    simp only [bind, Except.bind, pure, Except.pure] at loaded
    cases checked : problems document with
    | error u =>
      rw [checked] at loaded
      cases loaded
    | ok found =>
      rw [checked] at loaded
      simp only [orUnfit] at loaded
      split at loaded
      · cases loaded
        obtain ⟨workflow, opened⟩ := mapping_of_valid checked
        exact ⟨document, checked, by rw [opened]; rfl, proper_of_parse parsed⟩
      · cases loaded
  · cases loaded

end Workflow
end Rehearsal
