import Rehearsal.Proofs.Job.Deeds
import Rehearsal.Run.Execute

/-! The passes over the jobs come down to turns: in each one a job that is due runs, and if it comes
to its end it is noted as done. `Rounds` lists the turns pass by pass, and `rounds_of_passesFrom`
gives that list for the loop that runs. -/

namespace Rehearsal.Run

open Play

/-- One run of a job. -/
structure Turn where
  name : Scalar
  job : Value
  start : Session
  deeds : List Deed
  result : Except Fault Unit

namespace Turn

def finish (t : Turn) : Session := Deed.all t.deeds t.start

def noted (t : Turn) : Session :=
  { t.finish with ledger := t.finish.ledger.complete t.name }

/-- That a turn is one of the running program: the job is not done while all that it needs is, and
its deeds are what running it does. -/
structure Taken (workflow : Mapping) (root : String) (jobs : Mapping) (t : Turn) : Prop where
  stated : (t.name, t.job) ∈ jobs
  fresh : Job.isDone t.start.ledger.completed t.name = false
  ready : ∃ needed, Job.needs t.job = .ok needed ∧
    Job.isReady t.start.ledger.completed needed = true
  ran : (Job.run workflow root t.name t.job).perform t.start = (t.result, t.finish)
  own : ∀ d ∈ t.deeds, d.OfJob t.name

theorem finish_completed (t : Turn) :
    t.finish.ledger.completed = t.start.ledger.completed := Deed.all_completed ..

theorem noted_completed (t : Turn) :
    t.noted.ledger.completed = t.start.ledger.completed ++ [t.name] := by
  show t.finish.ledger.completed ++ [t.name] = _
  rw [finish_completed]

end Turn

/-- That a job is done, or needs one that is not. -/
def Waits (done : List Scalar) (entry : Scalar × Value) : Prop :=
  Job.isDone done entry.1 = true ∨
    ∃ needed, Job.needs entry.2 = .ok needed ∧ Job.isReady done needed = false

variable {workflow jobs : Mapping} {root : String} {s u v : Session}
  {result : Except Fault Unit} {turns : List Turn}

/-- Turns one after the other, from one session to another. A fault ends them. -/
inductive Turns (workflow : Mapping) (root : String) (jobs : Mapping) :
    Session → List Turn → Except Fault Unit → Session → Prop where
  | none (s : Session) : Turns workflow root jobs s [] (.ok ()) s
  | unclear {fault : Fault} {s : Session} {entry : Scalar × Value} (stated : entry ∈ jobs)
      (unreadable : Job.needs entry.2 = .error fault) :
      Turns workflow root jobs s [] (.error fault) s
  | failed {t : Turn} {fault : Fault} (taken : t.Taken workflow root jobs)
      (failed : t.result = .error fault) :
      Turns workflow root jobs t.start [t] (.error fault) t.finish
  | next {t : Turn} {turns : List Turn} {result : Except Fault Unit} {u : Session}
      (taken : t.Taken workflow root jobs) (ended : t.result = .ok ())
      (rest : Turns workflow root jobs t.noted turns result u) :
      Turns workflow root jobs t.start (t :: turns) result u

theorem Turns.append {more : List Turn}
    (first : Turns workflow root jobs s turns (.ok ()) u)
    (rest : Turns workflow root jobs u more result v) :
    Turns workflow root jobs s (turns ++ more) result v := by
  generalize ok : (.ok () : Except Fault Unit) = ended at first
  induction first with
  | none s => exact rest
  | unclear => cases ok
  | failed => cases ok
  | next taken ended tail ih => exact .next taken ended (ih rest ok)

theorem Turns.split {before after : List Turn} {t : Turn}
    (turned : Turns workflow root jobs s (before ++ t :: after) result u) :
    Turns workflow root jobs s before (.ok ()) t.start ∧ t.Taken workflow root jobs ∧
      Turns workflow root jobs t.start (t :: after) result u := by
  induction before generalizing s with
  | nil =>
    cases turned with
    | failed taken failed => exact ⟨.none _, taken, .failed taken failed⟩
    | next taken ended rest => exact ⟨.none _, taken, .next taken ended rest⟩
  | cons first before ih =>
    rw [List.cons_append] at turned
    generalize same : before ++ t :: after = others at turned
    cases turned with
    | failed => simp at same
    | next taken ended rest =>
      subst same
      obtain ⟨prior, own, later⟩ := ih rest
      exact ⟨.next taken ended prior, own, later⟩

/-! ### The jobs that are done -/

theorem Turns.completed (turned : Turns workflow root jobs s turns (.ok ()) u) :
    u.ledger.completed = s.ledger.completed ++ turns.map (·.name) := by
  generalize ok : (.ok () : Except Fault Unit) = ended at turned
  induction turned with
  | none s => exact (List.append_nil _).symm
  | unclear => cases ok
  | failed => cases ok
  | @next t turns _ _ taken ended rest ih =>
    rw [ih ok, Turn.noted_completed, List.append_assoc]
    rfl

/-- The jobs that are done are distinct jobs of the workflow. -/
structure Orderly (jobs : Mapping) (done : List Scalar) : Prop where
  distinct : done.Pairwise fun a b => (a == b) = false
  stated : ∀ name ∈ done, name ∈ jobs.map (·.1)

theorem Orderly.nil : Orderly jobs [] := ⟨.nil, by simp⟩

theorem isDone_eq_false {done : List Scalar} {name : Scalar} :
    Job.isDone done name = false ↔ ∀ d ∈ done, (d == name) = false := by
  unfold Job.isDone
  rw [List.any_eq_false]
  exact forall₂_congr fun d _ => Bool.not_eq_true _ ▸ Iff.rfl

theorem Turn.Taken.orderly {t : Turn} (taken : t.Taken workflow root jobs)
    (orderly : Orderly jobs t.start.ledger.completed) :
    Orderly jobs t.noted.ledger.completed := by
  rw [Turn.noted_completed]
  constructor
  · rw [List.pairwise_append]
    refine ⟨orderly.distinct, List.pairwise_singleton .., ?_⟩
    intro d member name last
    rw [List.mem_singleton.mp last]
    exact isDone_eq_false.mp taken.fresh d member
  · intro name member
    rcases List.mem_append.mp member with earlier | last
    · exact orderly.stated name earlier
    · rw [List.mem_singleton.mp last]
      exact List.mem_map_of_mem taken.stated

theorem Turns.orderly (turned : Turns workflow root jobs s turns result u)
    (orderly : Orderly jobs s.ledger.completed) : Orderly jobs u.ledger.completed := by
  induction turned with
  | none => exact orderly
  | unclear => exact orderly
  | @failed t fault taken failed =>
    rw [Turn.finish_completed]
    exact orderly
  | next taken ended rest ih => exact ih (taken.orderly orderly)

/-! ### From the passes to the turns -/

theorem perform_visit (name : Scalar) (job : Value) (s : Session) :
    (visit workflow root name job).perform s =
      if Job.isDone s.ledger.completed name then (.ok (), s)
      else match Job.needs job with
        | .error fault => (.error fault, s)
        | .ok needed =>
          if Job.isReady s.ledger.completed needed then
            match (Job.run workflow root name job).perform s with
            | (.ok (), t) => (.ok (), { t with ledger := t.ledger.complete name })
            | (.error fault, t) => (.error fault, t)
          else (.ok (), s) := by
  unfold visit
  rw [perform_get_bind]
  dsimp only
  cases done : Job.isDone s.ledger.completed name with
  | true => rfl
  | false =>
    simp only [Bool.not_false, if_true, Bool.false_eq_true, if_false]
    rw [perform_bind, perform_adopt]
    cases Job.needs job with
    | error fault => rfl
    | ok needed =>
      cases ready : Job.isReady s.ledger.completed needed with
      | false => simp [ready]
      | true =>
        simp only [ready, if_true]
        rw [perform_bind]
        cases (Job.run workflow root name job).perform s with
        | mk ended t => cases ended <;> rfl

theorem turns_of_visit {name : Scalar} {job : Value} (stated : (name, job) ∈ jobs)
    (visited : (visit workflow root name job).perform s = (result, u)) :
    ∃ turns, Turns workflow root jobs s turns result u ∧
      (result = .ok () → turns = [] → Waits s.ledger.completed (name, job)) := by
  rw [perform_visit] at visited
  split at visited
  · next done =>
    cases visited
    exact ⟨[], .none s, fun _ _ => .inl done⟩
  · next left =>
    split at visited
    · next fault unreadable =>
      cases visited
      exact ⟨[], .unclear stated unreadable, fun _ _ => by contradiction⟩
    · next needed readable =>
      split at visited
      · next ready =>
        obtain ⟨deeds, own, same⟩ := (Job.run_ofJob workflow root name job).deeds s
        let t : Turn := ⟨name, job, s, deeds, ((Job.run workflow root name job).perform s).1⟩
        have taken : t.Taken workflow root jobs :=
          ⟨stated, by simpa using left, ⟨needed, readable, ready⟩, Prod.ext rfl same, own⟩
        split at visited
        · next v ran =>
          cases visited
          have finish : t.finish = v := same.symm.trans (by rw [ran])
          refine ⟨[t], ?_, by simp⟩
          rw [← finish]
          exact .next taken (by simp [t, ran]) (.none _)
        · next fault v ran =>
          cases visited
          have finish : t.finish = u := same.symm.trans (by rw [ran])
          refine ⟨[t], ?_, by simp⟩
          rw [← finish]
          exact .failed taken (by simp [t, ran])
      · next blocked =>
        cases visited
        exact ⟨[], .none s, fun _ _ => .inr ⟨needed, readable, by simpa using blocked⟩⟩

theorem turns_of_pass {entries : Mapping} (stated : ∀ entry ∈ entries, entry ∈ jobs)
    (passed : (pass workflow root entries).perform s = (result, u)) :
    ∃ turns, Turns workflow root jobs s turns result u ∧
      (result = .ok () → turns = [] →
        ∀ entry ∈ entries, Waits s.ledger.completed entry) := by
  induction entries generalizing s with
  | nil =>
    cases passed
    exact ⟨[], .none _, by simp⟩
  | cons entry rest ih =>
    obtain ⟨name, job⟩ := entry
    unfold pass at passed
    rw [perform_bind] at passed
    split at passed
    · next v visited =>
      obtain ⟨first, visits, waits⟩ := turns_of_visit (stated _ List.mem_cons_self) visited
      obtain ⟨more, passes, wait⟩ := ih (fun entry member => stated _ (.tail _ member)) passed
      refine ⟨first ++ more, visits.append passes, ?_⟩
      intro ok none
      obtain ⟨rfl, rfl⟩ := List.append_eq_nil_iff.mp none
      cases visits
      exact List.forall_mem_cons.mpr ⟨waits rfl rfl, wait ok rfl⟩
    · next fault v visited =>
      cases passed
      obtain ⟨first, visits, -⟩ := turns_of_visit (stated _ List.mem_cons_self) visited
      exact ⟨first, visits, fun ok => by contradiction⟩

/-! ### Rounds -/

/-- The turns of a run of the loop, pass by pass. The last pass may have none; then the jobs that
are left are reported. -/
inductive Rounds (workflow : Mapping) (root : String) (jobs : Mapping) :
    Session → List (List Turn) → Except Fault Unit → Session → Prop where
  | done {s : Session} (all : jobs.length ≤ s.ledger.completed.length) :
      Rounds workflow root jobs s [] (.ok ()) s
  | failed {s u : Session} {turns : List Turn} {fault : Fault}
      (left : s.ledger.completed.length < jobs.length)
      (passed : (pass workflow root jobs).perform s = (.error fault, u))
      (turned : Turns workflow root jobs s turns (.error fault) u) :
      Rounds workflow root jobs s [turns] (.error fault) u
  | stuck {s u : Session} {result : Except Fault Unit}
      (left : s.ledger.completed.length < jobs.length)
      (passed : (pass workflow root jobs).perform s = (.ok (), s))
      (waits : ∀ entry ∈ jobs, Waits s.ledger.completed entry)
      (reported : (reportStuck jobs).perform s = (result, u)) :
      Rounds workflow root jobs s [[]] result u
  | next {s u v : Session} {turns : List Turn} {rounds : List (List Turn)}
      {result : Except Fault Unit} (left : s.ledger.completed.length < jobs.length)
      (passed : (pass workflow root jobs).perform s = (.ok (), u))
      (turned : Turns workflow root jobs s turns (.ok ()) u) (some : turns ≠ [])
      (rest : Rounds workflow root jobs u rounds result v) :
      Rounds workflow root jobs s (turns :: rounds) result v

theorem rounds_of_passesFrom (s : Session)
    (passed : passesFrom workflow root jobs s = (result, v)) :
    ∃ rounds, Rounds workflow root jobs s rounds result v := by
  fun_induction passesFrom workflow root jobs s with
  | case1 s left fault u failed =>
    cases passed
    obtain ⟨turns, turned, -⟩ := turns_of_pass (fun _ member => member) failed
    exact ⟨[turns], .failed left failed turned⟩
  | case2 s left u passes more ih =>
    obtain ⟨turns, turned, waits⟩ := turns_of_pass (fun _ member => member) passes
    obtain ⟨rounds, rest⟩ := ih passed
    refine ⟨turns :: rounds, .next left passes turned ?_ rest⟩
    rintro rfl
    cases turned
    exact absurd more (Nat.lt_irrefl _)
  | case3 s left u passes same =>
    obtain ⟨turns, turned, waits⟩ := turns_of_pass (fun _ member => member) passes
    have none : turns = [] := by
      rw [turned.completed, List.length_append, List.length_map] at same
      exact List.eq_nil_of_length_eq_zero (by omega)
    subst none
    cases turned
    exact ⟨[[]], .stuck left passes (waits rfl rfl) passed⟩
  | case4 s all =>
    cases passed
    exact ⟨[], .done (Nat.le_of_not_lt all)⟩

theorem Rounds.length_le {rounds : List (List Turn)}
    (run : Rounds workflow root jobs s rounds result v) :
    rounds.length ≤ jobs.length - s.ledger.completed.length + 1 := by
  induction run with
  | done all => exact Nat.zero_le _
  | failed left passed turned => exact Nat.le_add_left ..
  | stuck left passed waits reported => exact Nat.le_add_left ..
  | @next s u v turns rounds result left passed turned some rest ih =>
    have ran := List.length_pos_iff.mpr some
    rw [turned.completed, List.length_append, List.length_map] at ih
    rw [List.length_cons]
    omega

end Rehearsal.Run
