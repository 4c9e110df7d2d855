import Mathlib.Data.List.Perm.Subperm
import Mathlib.Order.Bounds.Defs
import Rehearsal.Proofs.Run.Order

/-! A run that comes to its end has done the jobs of the least set that has every job whose needs it
has, in an order that only depends on what the jobs need: `done_of_execute`. -/

namespace Rehearsal.Run

open Play

variable {workflow jobs : Mapping} {root : String} {s t u v : Session}
  {result : Except Fault Unit} {turns : List Turn} {rounds : List (List Turn)}

def Named (jobs : Mapping) : Prop := ∀ entry ∈ jobs, ∃ name, entry.1 = .str name

/-- That a set of jobs has each job whose needs it has. -/
def Closed (jobs : Mapping) (set : Set Scalar) : Prop :=
  ∀ entry ∈ jobs, ∀ needed, Job.needs entry.2 = .ok needed →
    (∀ name ∈ needed, Scalar.str name ∈ set) → entry.1 ∈ set

theorem isDone_of_mem {done : List Scalar} {name : Scalar} (member : name ∈ done) :
    Job.isDone done name = true := List.any_eq_true.mpr ⟨name, member, BEq.rfl⟩

theorem isDone_str_iff {done : List Scalar} {name : String} :
    Job.isDone done (.str name) = true ↔ .str name ∈ done := by
  constructor
  · intro done
    obtain ⟨d, member, same⟩ := List.any_eq_true.mp done
    rwa [← Scalar.beq_str_iff.mp same]
  · exact isDone_of_mem

theorem isReady_iff {done : List Scalar} {needed : List String} :
    Job.isReady done needed = true ↔ ∀ name ∈ needed, Scalar.str name ∈ done := by
  unfold Job.isReady
  rw [List.all_eq_true]
  exact forall₂_congr fun name _ => isDone_str_iff

/-! ### Only what is supported gets done -/

theorem Turns.subset_of_closed {set : Set Scalar}
    (turned : Turns workflow root jobs s turns result u) (closed : Closed jobs set)
    (start : ∀ name ∈ s.ledger.completed, name ∈ set) :
    ∀ name ∈ u.ledger.completed, name ∈ set := by
  induction turned with
  | none => exact start
  | unclear => exact start
  | @failed t fault taken failed =>
    rw [Turn.finish_completed]
    exact start
  | @next t turns result u taken ended rest ih =>
    refine ih ?_
    rw [Turn.noted_completed]
    intro name member
    rcases List.mem_append.mp member with earlier | last
    · exact start name earlier
    · obtain ⟨needed, readable, ready⟩ := taken.ready
      rw [List.mem_singleton.mp last]
      exact closed _ taken.stated needed readable fun name member =>
        start _ (isReady_iff.mp ready name member)

/-! ### Everything supported gets done -/

theorem Orderly.nodup {done : List Scalar} (orderly : Orderly jobs done) : done.Nodup := by
  refine orderly.distinct.imp fun {a b} other same => ?_
  rw [same, BEq.rfl] at other
  cases other

theorem Orderly.mem_of_length_le {done : List Scalar} (orderly : Orderly jobs done)
    (all : jobs.length ≤ done.length) {entry : Scalar × Value} (stated : entry ∈ jobs) :
    entry.1 ∈ done := by
  have within : done ⊆ jobs.map (·.1) := orderly.stated
  have same := (orderly.nodup.subperm within).perm_of_length_le (by rwa [List.length_map])
  exact same.mem_iff.mpr (List.mem_map_of_mem stated)

theorem Rounds.waits (run : Rounds workflow root jobs s rounds (.ok ()) u)
    (orderly : Orderly jobs s.ledger.completed) :
    ∀ entry ∈ jobs, Waits u.ledger.completed entry := by
  generalize ok : (.ok () : Except Fault Unit) = ended at run
  induction run with
  | done all =>
    intro entry stated
    exact .inl (isDone_of_mem (orderly.mem_of_length_le all stated))
  | failed => cases ok
  | stuck left passed waits reported =>
    rw [(written_of_reportStuck reported).completed]
    exact waits
  | next left passed turned some rest ih => exact ih (turned.orderly orderly) ok

theorem closed_of_waits {done : List Scalar} (named : Named jobs)
    (waits : ∀ entry ∈ jobs, Waits done entry) : Closed jobs {name | name ∈ done} := by
  intro entry stated needed readable supported
  rcases waits entry stated with finished | ⟨others, same, blocked⟩
  · obtain ⟨name, same⟩ := named entry stated
    rw [same] at finished ⊢
    exact isDone_str_iff.mp finished
  · cases readable.symm.trans same
    rw [isReady_iff.mpr supported] at blocked
    cases blocked

theorem Rounds.isLeast (run : Rounds workflow root jobs s rounds (.ok ()) u)
    (named : Named jobs) (new : s.ledger.completed = []) :
    IsLeast {set | Closed jobs set} {name | name ∈ u.ledger.completed} := by
  have orderly : Orderly jobs s.ledger.completed := new ▸ .nil
  constructor
  · exact closed_of_waits named (run.waits orderly)
  · intro set closed name member
    obtain ⟨ended, last, turned, written⟩ := run.turns
    have finished : name ∈ u.ledger.completed := member
    rw [written.completed] at finished
    exact turned.subset_of_closed closed (by simp [new]) name finished

/-! ### What happens in the jobs does not matter -/

/-- What decides when the jobs run: their order and what they need. -/
def plan (jobs : Mapping) : List (Scalar × Except Fault (List String)) :=
  jobs.map fun entry => (entry.1, Job.needs entry.2)

def advance (done : List Scalar) (entry : Scalar × Except Fault (List String)) : List Scalar :=
  match entry.2 with
  | .ok needed =>
    if !Job.isDone done entry.1 && Job.isReady done needed then done ++ [entry.1] else done
  | .error _ => done

theorem completed_of_visit {name : Scalar} {job : Value}
    (visited : (visit workflow root name job).perform s = (.ok (), u)) :
    u.ledger.completed = advance s.ledger.completed (name, Job.needs job) := by
  rw [perform_visit] at visited
  unfold advance
  split at visited
  · next finished =>
    cases visited
    cases Job.needs job with
    | error fault => rfl
    | ok needed => simp [finished]
  · next left =>
    cases readable : Job.needs job with
    | error fault =>
      rw [readable] at visited
      cases visited
    | ok needed =>
      rw [readable] at visited
      dsimp only at visited
      split at visited
      · next ready =>
        have kept := (Job.run_ofJob workflow root name job).keeps (·.ledger.completed)
          (fun d s _ => d.after_completed s) s
        split at visited
        · next t ran =>
          cases visited
          rw [ran] at kept
          simp only [left, ready, Bool.not_false, Bool.and_self, if_true, Ledger.complete]
          exact congrArg (· ++ [name]) kept
        · cases visited
      · next blocked =>
        cases visited
        simp [blocked]

theorem completed_of_pass {entries : Mapping}
    (passed : (pass workflow root entries).perform s = (.ok (), u)) :
    u.ledger.completed = (plan entries).foldl advance s.ledger.completed := by
  induction entries generalizing s with
  | nil =>
    cases passed
    rfl
  | cons entry rest ih =>
    obtain ⟨v, t, visited, passed⟩ := perform_bind_eq_ok passed
    rw [ih passed, completed_of_visit visited]
    rfl

theorem Turns.completed_ne (turned : Turns workflow root jobs s turns (.ok ()) u)
    (some : turns ≠ []) : u.ledger.completed ≠ s.ledger.completed := by
  intro same
  have grown := congrArg List.length turned.completed
  rw [same, List.length_append, List.length_map] at grown
  have ran := List.length_pos_iff.mpr some
  omega

variable {otherWorkflow otherJobs : Mapping} {otherRoot : String} {a b : Session}
  {others : List (List Turn)}

theorem completed_eq_of_pass
    (passed : (pass workflow root jobs).perform s = (.ok (), u))
    (other : (pass otherWorkflow otherRoot otherJobs).perform a = (.ok (), b))
    (same : plan jobs = plan otherJobs) (start : s.ledger.completed = a.ledger.completed) :
    u.ledger.completed = b.ledger.completed := by
  rw [completed_of_pass passed, completed_of_pass other, same, start]

theorem Rounds.completed_eq (run : Rounds workflow root jobs s rounds (.ok ()) u)
    (other : Rounds otherWorkflow otherRoot otherJobs a others (.ok ()) b)
    (same : plan jobs = plan otherJobs) (start : s.ledger.completed = a.ledger.completed) :
    u.ledger.completed = b.ledger.completed := by
  have size : jobs.length = otherJobs.length := by
    have sizes := congrArg List.length same
    rwa [plan, plan, List.length_map, List.length_map] at sizes
  generalize ok : (.ok () : Except Fault Unit) = ended at run
  induction run generalizing a others with
  | @done s all =>
    rw [start, size] at all
    cases other with
    | done => exact start
    | stuck left => exact absurd all (Nat.not_le_of_lt left)
    | next left => exact absurd all (Nat.not_le_of_lt left)
  | failed => cases ok
  | @stuck s u result left passed waits reported =>
    rw [(written_of_reportStuck reported).completed]
    cases other with
    | done all => rw [start, size] at left; exact absurd all (Nat.not_le_of_lt left)
    | stuck _ _ _ reports => rw [(written_of_reportStuck reports).completed, start]
    | next _ passes turned some =>
      have equal := completed_eq_of_pass passed passes same start
      exact absurd (equal.symm.trans start) (turned.completed_ne some)
  | @next s u v turns rounds result left passed turned some rest ih =>
    cases other with
    | done all => rw [start, size] at left; exact absurd all (Nat.not_le_of_lt left)
    | stuck _ passes =>
      have equal := completed_eq_of_pass passed passes same start
      exact absurd (equal.trans start.symm) (turned.completed_ne some)
    | next _ passes _ _ more => exact ih more (completed_eq_of_pass passed passes same start) ok

/-! ### The report of the jobs that are left -/

theorem map_str_of_stringNames {keys : List Scalar} {names : List String}
    (named : stringNames keys = .ok names) : names.map Scalar.str = keys := by
  induction keys generalizing names with
  | nil =>
    cases named
    rfl
  | cons key keys ih =>
    cases key with
    | str name =>
      cases rest : stringNames keys with
      | error fault => simp [stringNames, rest, bind, Except.bind] at named
      | ok others =>
        simp only [stringNames, rest, bind, Except.bind, pure, Except.pure, Except.ok.injEq]
          at named
        rw [← named, List.map_cons, ih rest]
    | _ => cases named

theorem nodup_names (distinct : Table.Distinct jobs) : (jobs.map (·.1)).Nodup := by
  refine List.pairwise_map.mpr (distinct.imp fun {a b} other same => ?_)
  rw [same, BEq.rfl] at other
  cases other

theorem remaining_eq_nil {done : List Scalar} (all : ∀ entry ∈ jobs, entry.1 ∈ done) :
    Job.remaining jobs done = [] := by
  refine List.filter_eq_nil_iff.mpr fun name member => ?_
  obtain ⟨entry, stated, rfl⟩ := List.mem_map.mp member
  simp [isDone_of_mem (all entry stated)]

theorem remaining_ne_nil {done : List Scalar} (named : Named jobs)
    (distinct : Table.Distinct jobs) (left : done.length < jobs.length) :
    Job.remaining jobs done ≠ [] := by
  intro none
  have within : jobs.map (·.1) ⊆ done := by
    intro name member
    have finished := List.filter_eq_nil_iff.mp none name member
    obtain ⟨entry, stated, rfl⟩ := List.mem_map.mp member
    obtain ⟨name, same⟩ := named entry stated
    rw [same] at finished ⊢
    exact isDone_str_iff.mp (by simpa using finished)
  have size := (nodup_names distinct).length_le_of_subset within
  rw [List.length_map] at size
  exact absurd size (Nat.not_le_of_lt left)

def report (names : List String) : List Deed :=
  if names = [] then []
  else [.log .warning (stuckText names),
    .log .warning "This might indicate a circular dependency or a missing job"]

/-- A run that comes to its end reports the jobs that are left, in written order, if there are
any. -/
theorem Rounds.reported (run : Rounds workflow root jobs s rounds (.ok ()) u)
    (named : Named jobs) (distinct : Table.Distinct jobs)
    (orderly : Orderly jobs s.ledger.completed) :
    ∃ last names, Turns workflow root jobs s rounds.flatten (.ok ()) last ∧
      names.map Scalar.str = Job.remaining jobs u.ledger.completed ∧
      u = Deed.all (report names) last := by
  generalize ok : (.ok () : Except Fault Unit) = ended at run
  induction run with
  | @done s all =>
    refine ⟨s, [], .none s, ?_, rfl⟩
    exact (remaining_eq_nil fun entry stated => orderly.mem_of_length_le all stated).symm
  | failed => cases ok
  | @stuck s u result left passed waits reported =>
    subst ok
    have kept := (written_of_reportStuck reported).completed
    rw [perform_reportStuck] at reported
    split at reported
    · cases reported
    · next names same =>
      cases reported
      have listed := map_str_of_stringNames same
      refine ⟨s, names, .none s, by rw [kept]; exact listed, ?_⟩
      have some : names ≠ [] := by
        rintro rfl
        exact remaining_ne_nil named distinct left listed.symm
      rw [report, if_neg some]
  | @next s u v turns rounds result left passed turned some rest ih =>
    obtain ⟨last, names, more, listed, same⟩ := ih (turned.orderly orderly) ok
    exact ⟨last, names, turned.append more, listed, same⟩

theorem Turns.silent (turned : Turns workflow root jobs s turns result u)
    (plain : s.logging.masked = false) :
    u.logging = s.logging ∧ ∃ new, u.trace = new ++ s.trace ∧
      ∀ level message, .log level message ∈ new → Deed.saysStuck level message = false := by
  induction turned with
  | none => exact ⟨rfl, [], rfl, by simp⟩
  | unclear => exact ⟨rfl, [], rfl, by simp⟩
  | @failed t fault taken failed =>
    obtain ⟨new, trace, own⟩ := Deed.all_trace t.deeds t.start plain
    refine ⟨Deed.all_logging .., new, trace, ?_⟩
    intro level message member
    exact (taken.own _ (own level message member)).saysStuck_eq_false
  | @next t turns result u taken ended rest ih =>
    have kept : t.noted.logging = t.start.logging := Deed.all_logging t.deeds t.start
    obtain ⟨new, trace, own⟩ := Deed.all_trace t.deeds t.start plain
    obtain ⟨same, more, others, silent⟩ := ih (by rwa [kept])
    refine ⟨same.trans kept, more ++ new, ?_, ?_⟩
    · rw [others, List.append_assoc, ← trace]
      rfl
    · intro level message member
      rcases List.mem_append.mp member with later | first
      · exact silent level message later
      · exact (taken.own _ (own level message first)).saysStuck_eq_false

theorem saysStuck_stuckText (names : List String) :
    Deed.saysStuck .warning (stuckText names) = true := by
  unfold stuckText
  generalize ", ".intercalate names = text
  simp [Deed.saysStuck, Text.startsWith, Text.after?]

theorem silent_of_turns (opened : Opened s u)
    (turned : Turns workflow root jobs u turns result v) (plain : s.logging.masked = false) :
    v.logging = s.logging ∧ ∃ new, v.trace = new ++ s.trace ∧
      ∀ message, .log .warning message ∈ new → Deed.saysStuck .warning message = false := by
  have logging := opened.logging
  obtain ⟨records, toolchain, logs, same⟩ := opened.rest
  obtain ⟨kept, more, trace, silent⟩ := turned.silent (by rwa [logging])
  have start : u.trace = records ++ s.trace := by rw [same]
  refine ⟨kept.trans logging, more ++ records, by rw [trace, start, List.append_assoc], ?_⟩
  intro message member
  rcases List.mem_append.mp member with turn | opening
  · exact silent _ _ turn
  · obtain ⟨text, other⟩ := logs _ opening
    cases other

theorem trace_report {names : List String} (some : names ≠ [])
    (plain : v.logging.masked = false)
    (kept : v.logging.threshold.weight ≤ Level.weight .warning) :
    (Deed.all (report names) v).trace =
      .log .warning "This might indicate a circular dependency or a missing job" ::
        .log .warning (stuckText names) :: v.trace := by
  have visible (w : Session) (same : w.logging = v.logging) (message : String) :
      logged .warning message w = [.log .warning message] :=
    logged_of_plain (by rwa [same]) .warning (by rwa [same]) message
  rw [report, if_neg some, Deed.all_cons, Deed.all_cons, Deed.all_nil, Deed.after_trace,
    Deed.after_trace, Deed.events, Deed.events, visible v rfl, visible _ (Deed.after_logging ..)]
  rfl

/-- What is to be seen of the report among the events of a run, if warnings are kept as they are:
there is one if jobs are left, and it names them. -/
theorem report_visible {names : List String} (opened : Opened s u)
    (turned : Turns workflow root jobs u turns result v) (plain : s.logging.masked = false)
    (kept : s.logging.threshold.weight ≤ Level.weight .warning) :
    ∃ new, (Deed.all (report names) v).trace = new ++ s.trace ∧ ∀ message,
      (.log .warning message ∈ new ∧ Deed.saysStuck .warning message = true) ↔
        names ≠ [] ∧ message = stuckText names := by
  obtain ⟨logging, earlier, trace, silent⟩ := silent_of_turns opened turned plain
  have quiet (message : String) :
      ¬(.log .warning message ∈ earlier ∧ Deed.saysStuck .warning message = true) := by
    rintro ⟨member, stuck⟩
    rw [silent message member] at stuck
    cases stuck
  by_cases none : names = []
  · refine ⟨earlier, by rw [report, if_pos none]; exact trace, fun message => ?_⟩
    constructor
    · intro seen
      exact absurd seen (quiet message)
    · rintro ⟨some, -⟩
      exact absurd none some
  · refine ⟨.log .warning "This might indicate a circular dependency or a missing job" ::
      .log .warning (stuckText names) :: earlier, ?_, ?_⟩
    · rw [trace_report none (by rwa [logging]) (by rwa [logging]), trace]
      rfl
    · intro message
      constructor
      · rintro ⟨member, stuck⟩
        refine ⟨none, ?_⟩
        rcases List.mem_cons.mp member with hint | member
        · obtain rfl : message = _ := by simpa using hint
          exact absurd stuck (by simp [Deed.saysStuck, Text.startsWith, Text.after?])
        · rcases List.mem_cons.mp member with named | other
          · simpa using named
          · exact absurd ⟨other, stuck⟩ (quiet message)
      · rintro ⟨-, rfl⟩
        exact ⟨by simp, saysStuck_stuckText names⟩

/-! ### The whole run -/

theorem rounds_of_execute (mapped : Run.jobs workflow = .ok jobs)
    (returned : (execute workflow root).perform s = (.ok (), t)) :
    ∃ start rounds, Opened s start ∧
      Rounds workflow (Path.tidy root) jobs start rounds (.ok ()) t := by
  obtain ⟨start, opened, outcome⟩ := perform_execute workflow root s
  rcases outcome with ⟨fault, u, performed, -⟩ | run
  · rw [performed] at returned
    cases returned
  · obtain ⟨others, ended, u, v, same, passed, performed, -, kept⟩ := run
    rw [performed] at returned
    cases returned
    cases mapped.symm.trans same
    obtain ⟨rounds, run⟩ := rounds_of_passesFrom start passed
    rw [← kept rfl] at run
    exact ⟨start, rounds, opened, run⟩

/-- **Completeness of the schedule.** A run that comes to its end has done exactly the jobs of the
least set that has every job whose needs it has. It makes at most one pass more than there are
jobs, it reports the jobs that are left if there are any, and every run with the same plan does the
same jobs in the same order. -/
theorem done_of_execute (mapped : Run.jobs workflow = .ok jobs) (named : Named jobs)
    (distinct : Table.Distinct jobs)
    (returned : (execute workflow root).perform s = (.ok (), t)) :
    IsLeast {set | Closed jobs set} {name | name ∈ t.ledger.completed} ∧
      (∃ start rounds last names, Opened s start ∧
        Rounds workflow (Path.tidy root) jobs start rounds (.ok ()) t ∧
        rounds.length ≤ jobs.length + 1 ∧
        Turns workflow (Path.tidy root) jobs start rounds.flatten (.ok ()) last ∧
        names.map Scalar.str = Job.remaining jobs t.ledger.completed ∧
        t = Deed.all (report names) last ∧
        (s.logging.masked = false → s.logging.threshold.weight ≤ Level.weight .warning →
          ∃ new, t.trace = new ++ s.trace ∧ ∀ message,
            (.log .warning message ∈ new ∧ Deed.saysStuck .warning message = true) ↔
              names ≠ [] ∧ message = stuckText names)) ∧
      ∀ otherWorkflow otherJobs otherRoot a b, Run.jobs otherWorkflow = .ok otherJobs →
        plan otherJobs = plan jobs →
        (execute otherWorkflow otherRoot).perform a = (.ok (), b) →
        b.ledger.completed = t.ledger.completed := by
  obtain ⟨start, rounds, opened, run⟩ := rounds_of_execute mapped returned
  have orderly : Orderly jobs start.ledger.completed := opened.completed ▸ .nil
  refine ⟨run.isLeast named opened.completed, ?_, ?_⟩
  · obtain ⟨last, names, turned, listed, same⟩ := run.reported named distinct orderly
    have few := run.length_le
    rw [opened.completed, List.length_nil, Nat.sub_zero] at few
    refine ⟨start, rounds, last, names, opened, run, few, turned, listed, same, ?_⟩
    intro plain kept
    rw [same]
    exact report_visible opened turned plain kept
  · intro otherWorkflow otherJobs otherRoot a b others same ended
    obtain ⟨begin, more, opens, ran⟩ := rounds_of_execute others ended
    exact ran.completed_eq run same (opens.completed.trans opened.completed.symm)

/-- Two jobs that get done, the later one first, and one that waits for itself. -/
def loopingJobs : Mapping :=
  [(.str "a", .map [(.str "needs", .str "b"), (.str "uses", .str "x")]),
    (.str "b", .map [(.str "uses", .str "x")]),
    (.str "c", .map [(.str "needs", .list [.str "a", .str "c"]), (.str "uses", .str "x")])]

def loopingWorkflow : Mapping := [(.str "on", .str "push"), (.str "jobs", .map loopingJobs)]

def unasked : Session := { policy := { confirmJobs := false } }

theorem loopingJobs_named : Named loopingJobs := by simp [Named, loopingJobs]

theorem loopingJobs_distinct : Table.Distinct loopingJobs := by
  unfold Table.Distinct
  decide

theorem loopingWorkflow_returns : (execute loopingWorkflow "/").perform unasked =
    (.ok (), ((execute loopingWorkflow "/").perform unasked).2) :=
  perform_eq_of_toOption (by decide +kernel)

theorem done_of_execute_looping :
    IsLeast {set | Closed loopingJobs set}
      {name | name ∈ ((execute loopingWorkflow "/").perform unasked).2.ledger.completed} :=
  (done_of_execute rfl loopingJobs_named loopingJobs_distinct loopingWorkflow_returns).1

end Rehearsal.Run
