import Rehearsal.Run.Execute
import Rehearsal.Workflow.Validation

/-! In a workflow in which nothing is wrong, what each job needs can be told, and it is jobs of the
workflow: `needs_of_valid`. -/

namespace Rehearsal

namespace Table

variable {κ α : Type} [BEq κ]

theorem mem_of_find?_eq_some {key : κ} {value : α} {t : Table κ α}
    (found : find? key t = some value) : ∃ k, (k, value) ∈ t ∧ (k == key) = true := by
  induction t with
  | nil => cases found
  | cons entry rest ih =>
    obtain ⟨k, v⟩ := entry
    rw [find?] at found
    split at found
    · next same =>
      cases found
      exact ⟨k, List.mem_cons_self, same⟩
    · obtain ⟨other, member, same⟩ := ih found
      exact ⟨other, List.mem_cons_of_mem _ member, same⟩

end Table

theorem mem_keys_of_has {name : String} {jobs : Mapping} (has : Table.has (.str name) jobs = true) :
    .str name ∈ jobs.map (·.1) := by
  obtain ⟨job, found⟩ := Option.isSome_iff_exists.mp has
  obtain ⟨key, member, same⟩ := Table.mem_of_find?_eq_some found
  rw [Scalar.beq_str_iff.mp same] at member
  exact List.mem_map_of_mem (f := (·.1)) member

namespace Workflow

theorem Check.eq_nil_of_all {checks : List Check} (none : Check.all checks = .ok []) :
    ∀ check ∈ checks, check = .ok [] := by
  induction checks with
  | nil => simp
  | cons check rest ih =>
    unfold Check.all at none ih
    rw [List.mapM_cons] at none
    cases check with
    | error u => cases none
    | ok found =>
      cases others : rest.mapM fun check : Check => (check : Except Unfit (List Problem)) with
      | error u =>
        rw [others] at none
        cases none
      | ok more =>
        rw [others] at none ih
        have empty : found ++ more.flatten = [] := Except.ok.inj none
        obtain ⟨rfl, rest⟩ := List.append_eq_nil_iff.mp empty
        exact List.forall_mem_cons.mpr ⟨rfl, ih (congrArg Except.ok rest)⟩

theorem mapM_plain_of_mapM {read : Value → Option String}
    (reads : ∀ v name, read v = some name → v.plain = .ok name) {items : List Value}
    {names : List String} (named : items.mapM read = some names) :
    items.mapM Value.plain = .ok names := by
  induction items generalizing names with
  | nil =>
    cases named
    rfl
  | cons item items ih =>
    rw [List.mapM_cons] at named ⊢
    obtain ⟨name, first, named⟩ := Option.bind_eq_some_iff.mp named
    obtain ⟨others, rest, same⟩ := Option.bind_eq_some_iff.mp named
    cases same
    rw [reads item name first, ih rest]
    rfl

theorem needs_of_checkNeeds {jobs : Mapping} {path : String} {stated : Value}
    (fine : checkNeeds jobs path stated = .ok []) :
    ∃ needed, Job.neededNames stated = .ok needed ∧
      ∀ name ∈ needed, Scalar.str name ∈ jobs.map (·.1) := by
  unfold Job.neededNames
  by_cases present : stated.isPresent = true
  · rw [present]
    unfold checkNeeds at fine
    dsimp only at fine
    split at fine
    · cases fine
    · next names read =>
      refine ⟨names, ?_, ?_⟩
      · split at read
        · next name opened =>
          cases read
          rw [opened]
          rfl
        · next items opened =>
          rw [opened]
          have texts : items.mapM Value.plain = .ok names := by
            refine mapM_plain_of_mapM ?_ read
            intro v name same
            split at same
            · cases same
              rfl
            · cases same
          simp [texts, orUnfit]
        · cases read
      · intro name member
        have known := List.filter_eq_nil_iff.mp (List.map_eq_nil_iff.mp (Except.ok.inj fine))
        exact mem_keys_of_has (by simpa using known name member)
  · exact ⟨[], by simp [present], by simp⟩

theorem needs_of_checkJob {jobs : Mapping} {path : String} {job : Value}
    (fine : checkJob jobs path job = .ok []) :
    ∃ needed, Job.needs job = .ok needed ∧
      ∀ name ∈ needed, Scalar.str name ∈ jobs.map (·.1) := by
  unfold checkJob at fine
  split at fine
  · next entries opened =>
    have stated := Check.eq_nil_of_all fine
      (checkStated entries "needs" path (checkNeeds jobs)) (by simp)
    have field : job.field? "needs" = Table.find? (.str "needs") entries := by
      simp [Value.field?, Value.mapping?, opened]
    unfold Job.needs
    rw [field]
    unfold checkStated checkField at stated
    split at stated
    · next value found =>
      rw [found]
      dsimp only at stated
      split at stated
      · exact ⟨[], rfl, by simp⟩
      · exact needs_of_checkNeeds stated
    · next absent =>
      rw [absent]
      exact ⟨[], rfl, by simp⟩
  · cases fine

variable {document : Value} {workflow jobs : Mapping}

theorem mapping_of_valid (valid : problems document = .ok []) :
    ∃ workflow, document.mapping? = some workflow := by
  unfold problems at valid
  split at valid
  · next entries content => exact ⟨entries, by simp [Value.mapping?, content]⟩
  · cases valid

theorem jobs_of_valid (valid : problems document = .ok [])
    (opened : document.mapping? = some workflow) :
    ∃ jobs, Run.jobs workflow = .ok jobs ∧
      ∀ entry ∈ jobs, ∃ path, checkJob jobs path entry.2 = .ok [] := by
  unfold problems at valid
  split at valid
  · next entries content =>
    obtain rfl : entries = workflow := by simpa [Value.mapping?, content] using opened
    have fine := Check.eq_nil_of_all valid
      (checkJobs ((Table.find? (.str "jobs") entries).getD .null)) (by simp)
    unfold checkJobs at fine
    unfold Run.jobs
    dsimp only
    split at fine
    · cases fine
    · next present =>
      rw [if_neg present]
      split at fine
      · next stated inside =>
        rw [inside]
        refine ⟨stated, rfl, fun entry member => ?_⟩
        have checked := Check.eq_nil_of_all fine _ (List.mem_map_of_mem member)
        obtain ⟨key, job⟩ := entry
        cases text : key.plain with
        | error u => simp [text, bind, Except.bind] at checked
        | ok name =>
          simp only [text, bind, Except.bind] at checked
          exact ⟨_, checked⟩
      · cases fine
  · cases valid

theorem needs_of_valid (valid : problems document = .ok [])
    (opened : document.mapping? = some workflow) (mapped : Run.jobs workflow = .ok jobs) :
    ∀ entry ∈ jobs, ∃ needed, Job.needs entry.2 = .ok needed ∧
      ∀ name ∈ needed, Scalar.str name ∈ jobs.map (·.1) := by
  obtain ⟨stated, same, checked⟩ := jobs_of_valid valid opened
  cases mapped.symm.trans same
  intro entry member
  obtain ⟨path, fine⟩ := checked entry member
  exact needs_of_checkJob fine

end Workflow
end Rehearsal
