import Rehearsal.Proofs.Job.Seen
import Rehearsal.Proofs.Job.Stages
import Rehearsal.Proofs.Json.Parsed
import Rehearsal.Proofs.Run.Current
import Rehearsal.Proofs.Run.Results

/-! The outputs of steps are on record for a job, not for an instance. In a run that starts without
any, an instance sees what earlier instances of its job and its own earlier steps have given, and
nothing that other jobs have: `instances_share_outputs`. -/

namespace Rehearsal

open Play

/-! ### The instances of a job -/

/-- An instance of a job that ran, and stages. -/
structure Staging where
  run : InstanceRun
  stages : List Stage

namespace Staging

def deeds (g : Staging) : List Deed := g.stages.flatMap (·.deeds)

def Holds (g : Staging) : Prop :=
  Stages g.run.site g.run.definition g.run.start g.stages g.run.finish

/-- That a deed of the instance gives an output: it is one of the step with this id. -/
structure Gives (g : Staging) (d : Deed) (id name value : String) : Prop where
  value : d.gives? id name = some value
  step : ∃ step index deeds, .step step index deeds ∈ g.stages ∧ d ∈ deeds ∧
    Step.id step index = .ok id

/-- That an instance sees what it and earlier instances of the job have given last. -/
structure Shares (job : Scalar) (earlier : List Staging) (g : Staging) : Prop where
  seen : ∀ before, before <+: g.deeds → ∀ id name, (Deed.all before g.run.start).Sees job id name
    (Deed.lastGiven? id name (earlier.flatMap (·.deeds) ++ before))
  given : ∀ before, before <+: g.deeds → ∀ id name value,
    Deed.lastGiven? id name (earlier.flatMap (·.deeds) ++ before) = some value →
      (∃ d ∈ before, g.Gives d id name value) ∨
        ∃ k ∈ earlier, ∃ d ∈ k.deeds, k.Gives d id name value

variable {g : Staging} {earlier : List Staging} {job : Scalar} {id name : String}

theorem Holds.gives (holds : g.Holds) {d : Deed} (member : d ∈ g.deeds) {value : String}
    (gives : d.gives? id name = some value) : g.Gives d id name value :=
  ⟨gives, Stages.source holds member gives⟩

theorem Holds.stepOutput? (holds : g.Holds) (id name : String) {before : List Deed}
    (part : before <+: g.deeds) :
    (Deed.all before g.run.start).context.stepOutput? g.run.site.job id name =
      (Deed.lastGiven? id name before).or
        (g.run.start.context.stepOutput? g.run.site.job id name) :=
  Deed.stepOutput?_all (fun d member => Stages.ofJob holds d (part.subset member)) _

theorem shares_of_start (own : g.run.site.job = job) (each : ∀ k ∈ earlier, k.Holds)
    (holds : g.Holds)
    (start : ∀ id name, g.run.start.context.stepOutput? job id name =
      Deed.lastGiven? id name (earlier.flatMap (·.deeds))) : Shares job earlier g where
  seen before part id name := by
    subst own
    rw [Deed.lastGiven?_append, ← start id name, ← holds.stepOutput? id name part]
    exact Session.sees ..
  given before part id name value given := by
    obtain ⟨d, member, gives⟩ := Deed.exists_of_lastGiven? given
    rcases List.mem_append.mp member with other | mine
    · obtain ⟨k, inside, member⟩ := List.mem_flatMap.mp other
      exact .inr ⟨k, inside, d, member, (each k inside).gives member gives⟩
    · exact .inl ⟨d, mine, holds.gives (part.subset mine) gives⟩

end Staging

theorem Reaches.sameOutputs {s t : Session} (reaches : Reaches Deed.Inquires s t) :
    s.SameOutputs t := by
  obtain ⟨deeds, kind, rfl⟩ := reaches
  have same : s.SameOutputs s := ⟨rfl, rfl⟩
  exact Deed.all_keep (fun own same => same.trans (own.spares _)) kind same

theorem exists_stagings {workflow jobs : Mapping} {runs : List InstanceRun}
    (ran : ∀ r ∈ runs, r.Ran workflow jobs) :
    ∃ stagings : List Staging, stagings.map (·.run) = runs ∧ ∀ g ∈ stagings, g.Holds := by
  induction runs with
  | nil => exact ⟨[], rfl, List.forall_mem_nil _⟩
  | cons r runs ih =>
    obtain ⟨own, others⟩ := List.forall_mem_cons.mp ran
    obtain ⟨stages, performed⟩ := Job.exists_stages own.ran
    obtain ⟨stagings, same, holds⟩ := ih others
    exact ⟨⟨r, stages⟩ :: stagings, congrArg (r :: ·) same,
      List.forall_mem_cons.mpr ⟨performed, holds⟩⟩

theorem Row.stepOutput? {workflow jobs : Mapping} {s t : Session} {runs : List InstanceRun}
    (row : Row workflow jobs s runs (.ok ()) t) {job : Scalar}
    (own : ∀ r ∈ runs, r.site.job = job) {stagings : List Staging}
    (same : stagings.map (·.run) = runs) (holds : ∀ g ∈ stagings, g.Holds) (id name : String) :
    t.context.stepOutput? job id name =
      (Deed.lastGiven? id name (stagings.flatMap (·.deeds))).or
        (s.context.stepOutput? job id name) := by
  have kept {u v : Session} (apart : Reaches Deed.Inquires u v) :
      v.context.stepOutput? job id name = u.context.stepOutput? job id name := by
    rw [Context.stepOutput?, apart.sameOutputs.steps]
    rfl
  generalize ok : (.ok () : Except Fault Unit) = result at row
  induction row generalizing stagings with
  | none result apart =>
    obtain rfl := List.map_eq_nil_iff.mp same
    exact kept apart
  | failed => cases ok
  | @next s u r runs result apart ran ended rest ih =>
    obtain ⟨g, stagings, rfl, rfl, rfl⟩ := List.map_eq_cons_iff.mp same
    obtain ⟨mine, others⟩ := List.forall_mem_cons.mp own
    obtain ⟨first, further⟩ := List.forall_mem_cons.mp holds
    have finish : g.run.finish = Deed.all g.deeds g.run.start := Stages.all first
    have gave := first.stepOutput? id name List.prefix_rfl
    rw [ih others rfl further ok, finish, ← mine, gave, mine, kept apart, List.flatMap_cons,
      Deed.lastGiven?_append, Option.or_assoc]

/-! ### The jobs of a run -/

def Session.StepsOf (names : List Scalar) (s : Session) : Prop :=
  ∀ entry ∈ s.context.steps, entry.1 ∈ names

theorem Deed.OfJob.stepsOf {d : Deed} {job : Scalar} {names : List Scalar} {s : Session}
    (own : d.OfJob job) (listed : job ∈ names) (stepsOf : s.StepsOf names) :
    (d.after s).StepsOf names := by
  cases d with
  | recordStep owner id outputs =>
    obtain rfl : owner = job := own
    exact Table.forall_mem_put (fun _ _ known => known) listed stepsOf
  | _ =>
    simpa [Session.StepsOf, after, play, Play.echo, Play.perform_discard, Job.skip, Job.failLast,
      Context.recordJob, Context.remember] using stepsOf

namespace Run

variable {workflow jobs : Mapping} {root : String} {s u : Session} {result : Except Fault Unit}
  {turns : List Turn}

theorem Turns.stepsOf (turned : Turns workflow root jobs s turns result u)
    (stepsOf : s.StepsOf s.ledger.completed) :
    ∀ t ∈ turns, t.Taken workflow root jobs ∧ t.start.StepsOf t.start.ledger.completed := by
  induction turned with
  | none | unclear => exact List.forall_mem_nil _
  | failed taken failed => exact List.forall_mem_singleton.mpr ⟨taken, stepsOf⟩
  | @next t turns result u taken ended rest ih =>
    refine List.forall_mem_cons.mpr ⟨⟨taken, stepsOf⟩, ih ?_⟩
    rw [t.noted_completed]
    have listed : t.start.StepsOf (t.start.ledger.completed ++ [t.name]) :=
      fun entry member => List.mem_append_left _ (stepsOf entry member)
    have mine : t.name ∈ t.start.ledger.completed ++ [t.name] :=
      List.mem_append_right _ List.mem_cons_self
    exact Deed.all_keep (fun own listed => own.stepsOf mine listed) taken.own listed

theorem Turn.Taken.unrecorded {t : Turn} (taken : t.Taken workflow root jobs)
    (stepsOf : t.start.StepsOf t.start.ledger.completed) (id name : String) :
    t.start.context.stepOutput? t.name id name = none := by
  have absent : Table.find? t.name t.start.context.steps = none := by
    refine Option.eq_none_iff_forall_ne_some.mpr fun steps found => ?_
    obtain ⟨key, member, same⟩ := Table.mem_of_find?_eq_some found
    have other := isDone_eq_false.mp taken.fresh key (stepsOf _ member)
    rw [same] at other
    cases other
  rw [Context.stepOutput?, absent]
  rfl

/-- That the instances of a turn share outputs, in whatever stages they are told. -/
structure Staged.Shared (workflow : Mapping) (root : String) (jobs : Mapping) (j : Staged) : Prop
    extends Staged.Begun workflow root jobs j where
  told : ∃ stagings : List Staging, stagings.map (·.run) = j.runs ∧ ∀ g ∈ stagings, g.Holds
  shares : ∀ earlier g later, (earlier ++ g :: later).map (·.run) = j.runs →
    (∀ k ∈ earlier, k.Holds) → g.Holds → Staging.Shares j.turn.name earlier g

theorem Staged.Begun.shared {j : Staged} (begun : j.Begun workflow root jobs)
    (fresh : ∀ id name, j.turn.start.context.stepOutput? j.turn.name id name = none) :
    j.Shared workflow root jobs where
  toBegun := begun
  told := exists_stagings fun r member => (begun.row.instances.each r member).1
  shares earlier g later same each holds := by
    have own : ∀ r ∈ j.runs, r.site.job = j.turn.name := fun r member => by
      rw [(begun.own r member).2]
    have mine : g.run ∈ j.runs := by
      rw [← same]
      exact List.mem_map_of_mem (List.mem_append_right _ List.mem_cons_self)
    have before : Row workflow jobs j.turn.start (earlier.map (·.run)) (.ok ()) g.run.start := by
      have row := begun.row
      rw [← same, List.map_append] at row
      exact row.split
    have within : ∀ r ∈ earlier.map (·.run), r ∈ j.runs := fun r member => by
      rw [← same, List.map_append]
      exact List.mem_append_left _ member
    refine Staging.shares_of_start (own _ mine) each holds fun id name => ?_
    rw [before.stepOutput? (fun r member => own r (within r member)) rfl each, fresh,
      Option.or_none]

/-- **Shared outputs.** In a run that starts without outputs of steps, an instance of a job sees of
an output what an earlier one of its own steps or of the steps of an earlier instance of the job has
given last: a command and an output of the job come to that value, and a condition is evaluated with
it. If none of them has given any, commands and outputs of the job ask for one, and a condition is
not true. -/
theorem instances_share_outputs {s : Session} (blank : s.context.steps = []) (workflow : Mapping)
    (root : String) :
    ∃ turns, Account workflow (Path.tidy root) s turns ((execute workflow root).perform s).2 ∧
      ∀ t ∈ turns, ∃ runs,
        Staged.Shared workflow (Path.tidy root) (statedJobs workflow) ⟨t, runs⟩ := by
  obtain ⟨start, turns, ended, last, opened, turned, closing⟩ := closing_of_execute workflow root s
  refine ⟨turns, ⟨start, ended, last, opened, turned, closing.written⟩, fun t member => ?_⟩
  have none : start.context.steps = [] := by
    obtain ⟨-, records, toolchain, -, same⟩ := opened
    rw [same]
    exact blank
  have stepsOf : start.StepsOf start.ledger.completed := by
    rw [Session.StepsOf, none]
    exact List.forall_mem_nil _
  obtain ⟨taken, listed⟩ := turned.stepsOf stepsOf t member
  obtain ⟨runs, begun, -⟩ := taken.staged
  exact ⟨runs, begun.shared (taken.unrecorded listed)⟩

/-! ### Two instances -/

/-- A job with two instances, of which only the first one performs the step with outputs. -/
def twice : Mapping :=
  [(.str "on", .str "push"), (.str "jobs", .map [(.str "build", .map [
    (.str "strategy", .map [(.str "matrix", .map [(.str "n", .list [.int 1, .int 2])])]),
    (.str "runs-on", .str "x"),
    (.str "steps", .list [
      .map [(.str "id", .str "a"), (.str "if", .str "matrix.n == 1"), (.str "run", .str "make")],
      .map [(.str "run", .str "echo $\x7b\x7b steps.a.outputs.v \x7d\x7d")]])])])]

def writing : Session where
  policy := { confirmJobs := false, runAllCommands := true }
  reports := [{ written := some "v=1".toUTF8.toList }]

theorem instances_share_outputs_twice :
    writing.context.steps = [] ∧
      ∃ turns, Account twice (Path.tidy "") writing turns ((execute twice "").perform writing).2 ∧
        ∀ t ∈ turns, ∃ runs,
          Staged.Shared twice (Path.tidy "") (statedJobs twice) ⟨t, runs⟩ :=
  ⟨rfl, instances_share_outputs rfl twice ""⟩

/-- The second instance skips the step, and yet its command has the output of the first instance and
nothing is asked for it. -/
theorem instances_are_not_isolated :
    let t := ((execute twice "").perform writing).2
    writing.context.steps = [] ∧
      t.ledger.jobs.map (fun j => j.steps.map (·.status)) =
        [[.success, .success], [.skipped, .success]] ∧
      t.trace.reverse.filterMap Event.command? = ["make", "echo 1", "echo 1"] ∧
      t.questions = [] := by
  decide +kernel

end Run
end Rehearsal
