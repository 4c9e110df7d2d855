import Rehearsal.Proofs.Job.Maintained
import Rehearsal.Proofs.Step.Given

/-! What an instance does, it does in stages: by single deeds beside its steps, and by the deeds of
its steps (`exists_stages`). Only a step records outputs of steps, and only under its own id. On
record for the job is what was given last (`Deed.stepOutput?_all`). -/

namespace Rehearsal

open Play

/-! ### Outputs that are given -/

namespace Deed

def gives? (id name : String) : Deed → Option String
  | recordStep _ own outputs => if own = id then Table.find? name (Table.ofList outputs) else none
  | _ => none

def lastGiven? (id name : String) (deeds : List Deed) : Option String :=
  deeds.reverse.findSome? (gives? id name)

variable {job : Scalar} {id name : String}

theorem eq_recordStep_of_gives? {d : Deed} {value : String}
    (gives : d.gives? id name = some value) :
    ∃ owner outputs, d = recordStep owner id outputs := by
  cases d with
  | recordStep owner own outputs =>
    rw [gives?] at gives
    split at gives
    · next same => exact ⟨owner, outputs, by rw [same]⟩
    · cases gives
  | _ => cases gives

theorem exists_of_lastGiven? {deeds : List Deed} {value : String}
    (given : lastGiven? id name deeds = some value) :
    ∃ d ∈ deeds, d.gives? id name = some value := by
  obtain ⟨d, member, gives⟩ := List.exists_of_findSome?_eq_some given
  exact ⟨d, List.mem_reverse.mp member, gives⟩

theorem lastGiven?_append (deeds more : List Deed) : lastGiven? id name (deeds ++ more) =
    (lastGiven? id name more).or (lastGiven? id name deeds) := by
  rw [lastGiven?, List.reverse_append, List.findSome?_append]
  rfl

theorem lastGiven?_cons (d : Deed) (deeds : List Deed) : lastGiven? id name (d :: deeds) =
    (lastGiven? id name deeds).or (d.gives? id name) := by
  rw [← List.singleton_append, lastGiven?_append]
  simp [lastGiven?]

theorem OfJob.stepOutput? {d : Deed} (own : d.OfJob job) (s : Session) :
    (d.after s).context.stepOutput? job id name =
      (d.gives? id name).or (s.context.stepOutput? job id name) := by
  cases d with
  | recordStep owner step outputs =>
    obtain rfl : owner = job := own
    show (Context.recordStep owner step outputs s.context).stepOutput? owner id name = _
    rw [Context.stepOutput?_recordStep, gives?]
    by_cases same : step = id
    · rw [if_pos ⟨BEq.rfl, same⟩, if_pos same]
    · rw [if_neg fun both => same both.2, if_neg same, Option.none_or]
  | _ =>
    simp [after, play, Play.echo, Play.perform_discard, Job.skip, Job.failLast, gives?,
      Context.stepOutput?, Context.recordJob, Context.remember]

theorem stepOutput?_all {deeds : List Deed} (own : ∀ d ∈ deeds, d.OfJob job) (s : Session) :
    (all deeds s).context.stepOutput? job id name =
      (lastGiven? id name deeds).or (s.context.stepOutput? job id name) := by
  induction deeds generalizing s with
  | nil => rfl
  | cons d deeds ih =>
    obtain ⟨first, others⟩ := List.forall_mem_cons.mp own
    rw [all_cons, ih others, first.stepOutput?, lastGiven?_cons, Option.or_assoc]

/-! ### Stages -/

def Beside (job : Scalar) : Deed → Prop
  | ask _ | allowJobs => True
  | d => d.Between job

def OfRun (job : Scalar) (step : Value) (index : Nat) : Deed → Prop
  | recordStep owner id _ => owner = job ∧ Step.id step index = .ok id
  | d => d.Acts

theorem Inquires.beside {d : Deed} (h : d.Inquires) : d.Beside job := by
  cases d <;> first | exact h | exact h.elim | trivial

theorem Between.beside {d : Deed} (h : d.Between job) : d.Beside job := by
  cases d <;> first | exact h | trivial

theorem Beside.ofJob {d : Deed} (h : d.Beside job) : d.OfJob job := by
  cases d <;> first | exact h | exact h.elim

theorem Acts.ofRun {step : Value} {index : Nat} {d : Deed} (h : d.Acts) :
    d.OfRun job step index := by
  cases d <;> first | exact h | exact h.elim

theorem OfRun.ofJob {step : Value} {index : Nat} {d : Deed} (h : d.OfRun job step index) :
    d.OfJob job := by
  cases d <;> first | exact h | exact h.1 | exact h.elim

end Deed

/-- A part of what an instance does. -/
inductive Stage where
  | beside (d : Deed)
  | step (own : Value) (index : Nat) (deeds : List Deed)

namespace Stage

def deeds : Stage → List Deed
  | beside d => [d]
  | step _ _ deeds => deeds

end Stage

/-- The stages of an instance of a job, one after the other. -/
inductive Stages (site : Step.Site) (definition : Mapping) (s : Session) :
    List Stage → Session → Prop where
  | none : Stages site definition s [] s
  | beside {stages : List Stage} {t : Session} {d : Deed}
      (before : Stages site definition s stages t) (own : d.Beside site.job) :
      Stages site definition s (stages ++ [.beside d]) (d.after t)
  | step {stages : List Stage} {t : Session} {surroundings : Table String String} {step : Value}
      {index : Nat} {deeds : List Deed} {result : Except Fault Bool}
      (before : Stages site definition s stages t)
      (stated : (Job.statedSteps definition)[index]? = some step)
      (ran : (Job.runStep { site with jobEnvironment := surroundings } step index).perform t =
        (result, Deed.all deeds t))
      (own : ∀ d ∈ deeds, d.OfRun site.job step index) :
      Stages site definition s (stages ++ [.step step index deeds]) (Deed.all deeds t)

namespace Stages

variable {site : Step.Site} {definition : Mapping} {s t : Session} {stages : List Stage}

theorem all (performed : Stages site definition s stages t) :
    t = Deed.all (stages.flatMap (·.deeds)) s := by
  induction performed with
  | none => rfl
  | beside before own ih =>
    rw [List.flatMap_append, Deed.all_append, ← ih]
    rfl
  | step before stated ran own ih =>
    rw [List.flatMap_append, Deed.all_append, ← ih, List.flatMap_singleton]
    rfl

theorem ofJob (performed : Stages site definition s stages t) :
    ∀ d ∈ stages.flatMap (·.deeds), d.OfJob site.job := by
  induction performed with
  | none => nofun
  | beside before own ih =>
    rw [List.flatMap_append, List.flatMap_singleton]
    exact List.forall_mem_append.mpr ⟨ih, List.forall_mem_singleton.mpr own.ofJob⟩
  | step before stated ran own ih =>
    rw [List.flatMap_append, List.flatMap_singleton]
    exact List.forall_mem_append.mpr ⟨ih, fun d member => (own d member).ofJob⟩

theorem source (performed : Stages site definition s stages t) {d : Deed} {id name value : String}
    (member : d ∈ stages.flatMap (·.deeds)) (gives : d.gives? id name = some value) :
    ∃ step index deeds, .step step index deeds ∈ stages ∧ d ∈ deeds ∧
      Step.id step index = .ok id := by
  induction performed with
  | none => cases member
  | beside before own ih =>
    rw [List.flatMap_append, List.flatMap_singleton] at member
    rcases List.mem_append.mp member with earlier | last
    · obtain ⟨step, index, deeds, inside, found⟩ := ih earlier
      exact ⟨step, index, deeds, List.mem_append_left _ inside, found⟩
    · obtain ⟨owner, outputs, rfl⟩ := Deed.eq_recordStep_of_gives? gives
      obtain rfl := List.mem_singleton.mp last
      exact own.elim
  | step before stated ran own ih =>
    rw [List.flatMap_append, List.flatMap_singleton] at member
    rcases List.mem_append.mp member with earlier | last
    · obtain ⟨step, index, deeds, inside, found⟩ := ih earlier
      exact ⟨step, index, deeds, List.mem_append_left _ inside, found⟩
    · obtain ⟨owner, outputs, rfl⟩ := Deed.eq_recordStep_of_gives? gives
      exact ⟨_, _, _, List.mem_append_right _ (List.mem_singleton.mpr rfl), last, (own _ last).2⟩

end Stages

namespace Job

open Step (Site)

variable {site : Site} {definition : Mapping} {s t : Session}

theorem reaches_of_runStep {step : Value} {index : Nat} {result : Except Fault Bool}
    (performed : (runStep site step index).perform s = (result, t)) :
    Reaches (Deed.OfRun site.job step index) s t := by
  let Fit := Reaches (Deed.OfRun site.job step index) s
  have bears : Bears Deed.Acts Fit fun _ => Fit :=
    ⟨fun h => h.mocks.attends.acts, fun own => .deed own.ofRun, fun _ fit => fit⟩
  have maintains : Maintains Fit (fun _ => Fit) (runStep site step index) := by
    refine maintains_runStep (.of_acts bears Iff.rfl) fun stepId outputs own => ?_
    refine Step.maintains_recordOutputs
      (bears.mono Deed.Inquires.mocks fun h => h.attends.acts) fun u => .deed ?_
    exact ⟨rfl, own⟩
  exact maintains.kept (.refl s) performed

theorem exists_stages {result : Except Fault Unit}
    (performed : (runInstance site definition).perform s = (result, t)) :
    ∃ stages, Stages site definition s stages t := by
  let Fit (u : Session) : Prop := ∃ stages, Stages site definition s stages u
  have bears : Bears (Deed.Beside site.job) Fit fun _ => Fit :=
    ⟨Deed.Inquires.beside, fun own ⟨_, before⟩ => ⟨_, before.beside own⟩, fun _ fit => fit⟩
  have asked (question : String) : Maintains Fit (fun _ => Fit) (confirm question) :=
    .bind (bears.of_deed (.ask _) (fun s => (perform_discard _ s).symm) trivial (.ask _))
      fun _ => .pure _
  have maintains : Maintains Fit (fun _ => Fit) (runInstance site definition) := by
    refine maintains_runInstance (bears.mono Deed.Inquires.between Deed.Between.beside)
      (fun title => maintains_confirmed bears (asked _) trivial trivial fun _ fit => fit) ?_
    intro surroundings step index stated
    constructor
    rintro u ⟨stages, before⟩
    cases ran : (runStep { site with jobEnvironment := surroundings } step index).perform u with
    | mk result v =>
      obtain ⟨deeds, own, rfl⟩ := reaches_of_runStep ran
      have fit : Fit (Deed.all deeds u) := ⟨_, before.step stated ran own⟩
      cases result <;> exact fit
  exact maintains.kept ⟨[], .none⟩ performed

end Job
end Rehearsal
