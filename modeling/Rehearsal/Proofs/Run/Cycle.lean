import Mathlib.Data.Fintype.Card
import Mathlib.Data.Fintype.EquivFin
import Mathlib.Data.Fintype.Sets
import Mathlib.Data.List.Chain
import Rehearsal.Proofs.Run.Schedule
import Rehearsal.Proofs.Workflow.Needs

/-! The jobs of a valid workflow that are left at the end of a run hold a cycle, in which each job
needs the next one: `left_jobs_have_cycle`. -/

namespace Rehearsal.Run

variable {workflow jobs : Mapping} {root : String} {s t u : Session} {done : List Scalar}

def Needs (jobs : Mapping) (a b : String) : Prop :=
  ∃ job needed, (.str a, job) ∈ jobs ∧ Job.needs job = .ok needed ∧ b ∈ needed

/-- A cycle of jobs, in which each job needs the next one and the last one the first. -/
def IsCycle (jobs : Mapping) (names : List String) : Prop :=
  ∃ first rest, names = first :: rest ∧ List.IsChain (Needs jobs) (first :: rest ++ [first])

/-- That the jobs form no cycle. -/
def Acyclic (jobs : Mapping) : Prop := ∀ names, ¬IsCycle jobs names

theorem exists_transGen_self {names : List String} {r : {n // n ∈ names} → {n // n ∈ names} → Prop}
    (start : {n // n ∈ names}) (next : ∀ a, ∃ b, r a b) : ∃ a, Relation.TransGen r a a := by
  by_contra acyclic
  have none := not_exists.mp acyclic
  have : IsTrans _ (Function.swap (Relation.TransGen r)) :=
    ⟨fun _ _ _ first rest => rest.trans first⟩
  have : Std.Irrefl (Function.swap (Relation.TransGen r)) := ⟨none⟩
  have founded := Finite.wellFounded_of_trans_of_irrefl (Function.swap (Relation.TransGen r))
  induction start using founded.induction with
  | _ a ih =>
    obtain ⟨b, step⟩ := next a
    exact ih b (.single step)

theorem exists_chain_of_transGen {α : Type} {r : α → α → Prop} {a : α}
    (walk : Relation.TransGen r a a) : ∃ rest, List.IsChain r (a :: rest ++ [a]) := by
  obtain ⟨b, step, walk⟩ := Relation.TransGen.head'_iff.mp walk
  obtain ⟨rest, chain, last⟩ := List.exists_isChain_cons_of_relationReflTransGen walk
  refine ⟨(b :: rest).dropLast, ?_⟩
  rw [List.cons_append]
  have whole := List.dropLast_append_getLast (List.cons_ne_nil b rest)
  rw [last] at whole
  rw [whole]
  exact .cons_cons step chain

theorem exists_left_of_waits
    (known : ∀ entry ∈ jobs, ∃ needed, Job.needs entry.2 = .ok needed ∧
      ∀ name ∈ needed, Scalar.str name ∈ jobs.map (·.1))
    {entry : Scalar × Value} (stated : entry ∈ jobs) (waits : Waits done entry)
    (left : Job.isDone done entry.1 = false) :
    ∃ needed name, Job.needs entry.2 = .ok needed ∧ name ∈ needed ∧
      .str name ∈ Job.remaining jobs done := by
  rcases waits with finished | ⟨needed, readable, blocked⟩
  · rw [left] at finished
    cases finished
  · obtain ⟨others, same, within⟩ := known entry stated
    cases readable.symm.trans same
    obtain ⟨name, member, undone⟩ := List.all_eq_false.mp blocked
    refine ⟨needed, name, readable, member, List.mem_filter.mpr ⟨within name member, ?_⟩⟩
    simpa using undone

def nameOf? : Scalar → Option String
  | .str name => some name
  | _ => none

theorem mem_names_iff {keys : List Scalar} {name : String} :
    name ∈ keys.filterMap nameOf? ↔ .str name ∈ keys := by
  rw [List.mem_filterMap]
  constructor
  · rintro ⟨key, member, same⟩
    cases key with
    | str other =>
      cases same
      exact member
    | _ => cases same
  · intro member
    exact ⟨.str name, member, rfl⟩

theorem exists_cycle
    (known : ∀ entry ∈ jobs, ∃ needed, Job.needs entry.2 = .ok needed ∧
      ∀ name ∈ needed, Scalar.str name ∈ jobs.map (·.1))
    (waits : ∀ entry ∈ jobs, Waits done entry) (left : Job.remaining jobs done ≠ []) :
    ∃ names, IsCycle jobs names ∧ ∀ name ∈ names, Scalar.str name ∈ Job.remaining jobs done := by
  have next (key : Scalar) (member : key ∈ Job.remaining jobs done) :
      ∃ job needed name, (key, job) ∈ jobs ∧ Job.needs job = .ok needed ∧ name ∈ needed ∧
        .str name ∈ Job.remaining jobs done := by
    obtain ⟨stated, undone⟩ := List.mem_filter.mp member
    obtain ⟨⟨_, job⟩, entry, rfl⟩ := List.mem_map.mp stated
    obtain ⟨needed, name, readable, need, other⟩ :=
      exists_left_of_waits known entry (waits _ entry) (by simpa using undone)
    exact ⟨job, needed, name, entry, readable, need, other⟩
  let names := (Job.remaining jobs done).filterMap nameOf?
  let needs (a b : {n // n ∈ names}) : Prop := Needs jobs a.1 b.1
  obtain ⟨key, member⟩ := List.exists_mem_of_ne_nil _ left
  obtain ⟨_, _, first, _, _, _, start⟩ := next key member
  obtain ⟨a, walk⟩ := exists_transGen_self (r := needs) ⟨first, mem_names_iff.mpr start⟩ (by
    rintro ⟨name, member⟩
    obtain ⟨job, needed, other, entry, readable, need, later⟩ := next _ (mem_names_iff.mp member)
    exact ⟨⟨other, mem_names_iff.mpr later⟩, job, needed, entry, readable, need⟩)
  obtain ⟨rest, chain⟩ := exists_chain_of_transGen walk
  refine ⟨(a :: rest).map Subtype.val, ⟨a.1, rest.map Subtype.val, rfl, ?_⟩, ?_⟩
  · have mapped := (List.isChain_map Subtype.val (R := Needs jobs)).mpr chain
    simpa using mapped
  · intro name member
    obtain ⟨b, -, rfl⟩ := List.mem_map.mp member
    exact mem_names_iff.mp b.2

theorem IsCycle.transGen {names : List String} (cycle : IsCycle jobs names) :
    ∃ name, Relation.TransGen (Needs jobs) name name := by
  obtain ⟨first, rest, -, chain⟩ := cycle
  refine ⟨first, ?_⟩
  cases rest with
  | nil => exact .single (List.isChain_pair.mp chain)
  | cons second rest =>
    obtain ⟨step, chain⟩ := List.isChain_cons_cons.mp chain
    refine .head' step (List.relationReflTransGen_of_exists_isChain_cons _ chain ?_)
    show (second :: (rest ++ [first])).getLast _ = first
    simp

/-! ### Jobs on a cycle never run -/

/-- That the jobs that are done only need such jobs, and that none of them needs itself, directly or
through others. -/
structure Grounded (jobs : Mapping) (done : List Scalar) : Prop where
  closed : ∀ a b, Scalar.str a ∈ done → Needs jobs a b → .str b ∈ done
  acyclic : ∀ a, Scalar.str a ∈ done → ¬Relation.TransGen (Needs jobs) a a

theorem Grounded.mem_of_walk (grounded : Grounded jobs done) {a b : String}
    (walk : Relation.ReflTransGen (Needs jobs) a b) (start : .str a ∈ done) : .str b ∈ done := by
  induction walk with
  | refl => exact start
  | tail _ step ih => exact grounded.closed _ _ ih step

theorem Turn.Taken.mem_of_needs {turn : Turn} (taken : turn.Taken workflow root jobs)
    (distinct : Table.Distinct jobs) {a b : String} (own : turn.name = .str a)
    (need : Needs jobs a b) : .str b ∈ turn.start.ledger.completed := by
  obtain ⟨job, needed, stated, readable, member⟩ := need
  obtain ⟨others, same, ready⟩ := taken.ready
  have entry := List.inj_on_of_nodup_map (nodup_names distinct) taken.stated stated own
  have job : turn.job = job := congrArg Prod.snd entry
  rw [job] at same
  cases readable.symm.trans same
  exact isReady_iff.mp ready b member

theorem Turn.Taken.grounded {turn : Turn} (taken : turn.Taken workflow root jobs)
    (distinct : Table.Distinct jobs) (grounded : Grounded jobs turn.start.ledger.completed) :
    Grounded jobs turn.noted.ledger.completed := by
  rw [Turn.noted_completed]
  constructor
  · intro a b member need
    refine List.mem_append_left _ ?_
    rcases List.mem_append.mp member with earlier | last
    · exact grounded.closed a b earlier need
    · exact taken.mem_of_needs distinct (List.mem_singleton.mp last).symm need
  · intro a member walk
    rcases List.mem_append.mp member with earlier | last
    · exact grounded.acyclic a earlier walk
    · -- The walk enters what was done before the turn, and would have to leave it again.
      have own := (List.mem_singleton.mp last).symm
      obtain ⟨b, need, back⟩ := Relation.TransGen.head'_iff.mp walk
      have entered := taken.mem_of_needs distinct own need
      have finished := isDone_of_mem (grounded.mem_of_walk back entered)
      rw [← own, taken.fresh] at finished
      cases finished

theorem Turns.grounded {turns : List Turn} {result : Except Fault Unit}
    (turned : Turns workflow root jobs s turns result u) (distinct : Table.Distinct jobs)
    (grounded : Grounded jobs s.ledger.completed) : Grounded jobs u.ledger.completed := by
  induction turned with
  | none => exact grounded
  | unclear => exact grounded
  | @failed t fault taken failed =>
    rw [Turn.finish_completed]
    exact grounded
  | next taken ended rest ih => exact ih (taken.grounded distinct grounded)

theorem Grounded.no_cycle (grounded : Grounded jobs done)
    (all : ∀ entry ∈ jobs, Job.isDone done entry.1 = true) : Acyclic jobs := by
  intro names cycle
  obtain ⟨name, walk⟩ := cycle.transGen
  obtain ⟨other, need, -⟩ := Relation.TransGen.head'_iff.mp walk
  obtain ⟨job, -, stated, -⟩ := need
  exact grounded.acyclic name (isDone_str_iff.mp (all _ stated)) walk

/-! ### The whole run -/

/-- **Stuck on a cycle.** When a run of a valid workflow comes to its end and jobs are left, some of
these form a cycle. Without a cycle all jobs get done, and no report says that some are left. -/
theorem left_jobs_have_cycle {document : Value} (valid : Workflow.problems document = .ok [])
    (opened : document.mapping? = some workflow) (mapped : Run.jobs workflow = .ok jobs)
    (named : Named jobs) (distinct : Table.Distinct jobs)
    (returned : (execute workflow root).perform s = (.ok (), t)) :
    (Job.remaining jobs t.ledger.completed ≠ [] → ∃ names, IsCycle jobs names ∧
      ∀ name ∈ names, Scalar.str name ∈ Job.remaining jobs t.ledger.completed) ∧
    (Acyclic jobs → (∀ entry ∈ jobs, entry.1 ∈ t.ledger.completed) ∧
      ∃ start turns, Opened s start ∧
        Turns workflow (Path.tidy root) jobs start turns (.ok ()) t ∧
        (s.logging.masked = false → ∃ new, t.trace = new ++ s.trace ∧
          ∀ message, .log .warning message ∈ new →
            Deed.saysStuck .warning message = false)) := by
  obtain ⟨start, rounds, opening, run⟩ := rounds_of_execute mapped returned
  have orderly : Orderly jobs start.ledger.completed := opening.completed ▸ .nil
  have cyclic (left : Job.remaining jobs t.ledger.completed ≠ []) :=
    exists_cycle (Workflow.needs_of_valid valid opened mapped) (run.waits orderly) left
  refine ⟨cyclic, fun acyclic => ?_⟩
  have none : Job.remaining jobs t.ledger.completed = [] := by
    by_contra left
    obtain ⟨names, cycle, -⟩ := cyclic left
    exact acyclic names cycle
  constructor
  · intro entry stated
    have finished := List.filter_eq_nil_iff.mp none entry.1 (List.mem_map_of_mem stated)
    obtain ⟨name, same⟩ := named entry stated
    rw [same] at finished ⊢
    exact isDone_str_iff.mp (by simpa using finished)
  · obtain ⟨last, names, turned, listed, same⟩ := run.reported named distinct orderly
    rw [none] at listed
    rw [List.map_eq_nil_iff.mp listed] at same
    obtain rfl : t = last := same
    exact ⟨start, rounds.flatten, opening, turned, fun plain =>
      (silent_of_turns opening turned plain).2⟩

theorem loopingWorkflow_valid : Workflow.problems (.map loopingWorkflow) = .ok [] := rfl

theorem left_jobs_have_cycle_looping : ∃ names, IsCycle loopingJobs names ∧ ∀ name ∈ names,
    Scalar.str name ∈ Job.remaining loopingJobs
      ((execute loopingWorkflow "/").perform unasked).2.ledger.completed :=
  (left_jobs_have_cycle loopingWorkflow_valid rfl rfl loopingJobs_named loopingJobs_distinct
    loopingWorkflow_returns).1 (by decide +kernel)

end Rehearsal.Run
