import Mathlib.Data.List.Chain
import Rehearsal.Proofs.Job.History
import Rehearsal.Proofs.Run.Closing

/-! The user can have all further jobs run and all further commands executed, by an answer to one of
the confirmations that this puts an end to. A run is a row of moves, and `modes_stick` says what
lies between any two moments of it: no mode is left, and none is entered but by such an answer. -/

namespace Rehearsal

open Play

def Policy.fixed (p : Policy) : Policy := { p with runAllJobs := false, runAllCommands := false }

/-- A mode: all jobs are run, or all commands are executed. -/
inductive Mode where
  | jobs
  | commands

namespace Mode

variable {m n : Mode} {q : Question}

def isOn : Mode → Policy → Bool
  | jobs => Policy.runAllJobs
  | commands => Policy.runAllCommands

def confirms : Mode → Policy → Bool
  | jobs, p => p.confirmJobs
  | commands, _ => true

def enter : Mode → Deed
  | jobs => .allowJobs
  | commands => .allowCommands

def Asks : Mode → Question → Prop
  | jobs, q => ∃ title, q = Job.jobQuestion title
  | commands, q => q = Step.commandQuestion ∨ q = Step.failureQuestion

def Asked (m : Mode) (event : Event) : Prop := ∃ q answer, m.Asks q ∧ event = .ask q answer

/-- That an event is one of them, and the answer asks for the mode. -/
def Entered (m : Mode) (event : Event) : Prop :=
  ∃ q answer, m.Asks q ∧ event = .ask q answer ∧ Confirmation.parse answer = .all

theorem Asks.confirms (asks : m.Asks q) : Answers.isConfirmation q.text = true := by
  cases m with
  | jobs =>
    obtain ⟨title, rfl⟩ := asks
    exact isConfirmation_append _
  | commands =>
    rcases asks with rfl | rfl
    · exact Step.commandQuestion_confirms
    · exact Step.failureQuestion_confirms

theorem Asks.ne_jobs (asks : commands.Asks q) : ¬jobs.Asks q := by
  rintro ⟨title, rfl⟩
  have other := Job.isOfCommand_jobQuestion title ""
  rcases asks with same | same <;> simp [Event.isOfCommand, same] at other

theorem Asks.unique (own : m.Asks q) (other : n.Asks q) : n = m := by
  cases m <;> cases n <;> first
    | rfl
    | exact absurd own other.ne_jobs
    | exact absurd other own.ne_jobs

theorem Asked.isConfirmation {event : Event} (asked : m.Asked event) :
    event.isConfirmation = true := by
  obtain ⟨q, answer, own, rfl⟩ := asked
  exact own.confirms

theorem Entered.asked {event : Event} (entered : m.Entered event) : m.Asked event := by
  obtain ⟨q, answer, own, same, -⟩ := entered
  exact ⟨q, answer, own, same⟩

theorem enter_events (m : Mode) (s : Session) : m.enter.events s = [] := by cases m <;> rfl

theorem enter_fixed (m : Mode) (s : Session) : (m.enter.after s).policy.fixed = s.policy.fixed := by
  cases m <;> rfl

theorem isOn_enter (m n : Mode) (s : Session) :
    n.isOn (m.enter.after s).policy = true ↔ n.isOn s.policy = true ∨ n = m := by
  cases m <;> cases n <;> simp [isOn, enter, Deed.after, Deed.play]

theorem confirms_eq {p other : Policy} (same : p.fixed = other.fixed) (m : Mode) :
    m.confirms p = m.confirms other := by
  cases m with
  | jobs => exact (Policy.mk.inj same).2.2.2.1
  | commands => rfl

end Mode

/-! ### Moves -/

/-- The deeds that confirm nothing and leave the policy as it is. -/
structure Deed.Still (d : Deed) : Prop where
  policy : ∀ s, (d.after s).policy = s.policy
  events : ∀ s, ∀ event ∈ d.events s, event.isConfirmation = false

/-- A single move of a run. A confirmation is asked for in a mode that is off, and the answer may
enter it. -/
inductive Move (s : Session) : Session → Prop where
  | deed {d : Deed} (still : d.Still) : Move s (d.after s)
  | ask {m : Mode} {q : Question} (own : m.Asks q) (confirms : m.confirms s.policy = true)
      (off : m.isOn s.policy = false) (said : Step.reply q s ≠ .all) : Move s ((Deed.ask q).after s)
  | enter {m : Mode} {q : Question} (own : m.Asks q) (confirms : m.confirms s.policy = true)
      (off : m.isOn s.policy = false) (said : Step.reply q s = .all) :
      Move s (m.enter.after ((Deed.ask q).after s))
  | write (ledger : Ledger) (context : Context) {records : List Event}
      (logs : ∀ event ∈ records, ∃ level message, event = .log level message) :
      Move s { s with ledger, context, trace := records ++ s.trace }

/-- What lies between two moments of a run: a mode is on if and only if it was before or an answer
has entered it, and a confirmation is only asked for if its mode was off and as long as no answer
has entered it. The rest of the policy is the same. -/
structure Sticks (s t : Session) : Prop where
  fixed : t.policy.fixed = s.policy.fixed
  trace : t.trace = t.since s ++ s.trace
  on : ∀ m : Mode, m.isOn t.policy = true ↔
    m.isOn s.policy = true ∨ ∃ event ∈ t.since s, m.Entered event
  asked : ∀ m : Mode, ∀ event ∈ t.since s, m.Asked event →
    m.confirms s.policy = true ∧ m.isOn s.policy = false
  last : ∀ m : Mode, (t.since s).Pairwise fun event earlier => m.Asked event → ¬m.Entered earlier

variable {s t u : Session}

theorem Sticks.of_still {new : List Event} (policy : t.policy = s.policy)
    (trace : t.trace = new ++ s.trace) (unconfirmed : ∀ event ∈ new, event.isConfirmation = false) :
    Sticks s t := by
  have unasked {m : Mode} {event : Event} (member : event ∈ new) : ¬m.Asked event := fun asked => by
    have confirms := asked.isConfirmation
    rw [unconfirmed event member] at confirms
    cases confirms
  have since := Session.since_eq trace
  refine ⟨by rw [policy], by rw [since, trace], fun m => ?_, ?_, fun m => ?_⟩
  · rw [policy, since]
    exact ⟨.inl, fun on => on.resolve_right fun ⟨event, member, entered⟩ =>
      unasked member entered.asked⟩
  · rw [since]
    exact fun m event member asked => absurd asked (unasked member)
  · rw [since]
    exact List.pairwise_of_forall_mem_list fun event member _ _ asked =>
      absurd asked (unasked member)

theorem Sticks.of_ask {m : Mode} {q : Question} (own : m.Asks q)
    (confirms : m.confirms s.policy = true) (off : m.isOn s.policy = false)
    (fixed : t.policy.fixed = s.policy.fixed) (trace : t.trace = .ask q (answer q s) :: s.trace)
    (on : ∀ n : Mode, n.isOn t.policy = true ↔
      n.isOn s.policy = true ∨ n = m ∧ Step.reply q s = .all) : Sticks s t := by
  have since : t.since s = [.ask q (answer q s)] := Session.since_eq trace
  have entered (n : Mode) :
      n.Entered (.ask q (answer q s)) ↔ n = m ∧ Step.reply q s = .all := by
    constructor
    · rintro ⟨other, said, asks, same, all⟩
      cases same
      exact ⟨own.unique asks, all⟩
    · rintro ⟨rfl, all⟩
      exact ⟨q, _, own, rfl, all⟩
  refine ⟨fixed, by rw [since, trace]; rfl, fun n => ?_, fun n => ?_, fun n => ?_⟩
  · rw [on, since]
    simp [entered]
  · rw [since]
    rintro event member ⟨other, said, asks, same⟩
    rw [List.mem_singleton.mp member] at same
    cases same
    rw [own.unique asks]
    exact ⟨confirms, off⟩
  · rw [since]
    exact List.pairwise_singleton ..

theorem Move.sticks (move : Move s t) : Sticks s t := by
  cases move with
  | @deed d still => exact .of_still (still.policy s) (d.after_trace s) (still.events s)
  | ask own confirms off said =>
    refine .of_ask own confirms off rfl (Deed.after_trace ..) fun n => ?_
    simp only [said, and_false, or_false]
    rfl
  | @enter m q own confirms off said =>
    refine .of_ask own confirms off ?_ ?_ fun n => ?_
    · rw [m.enter_fixed]
      rfl
    · rw [Deed.after_trace, m.enter_events]
      exact Deed.after_trace ..
    · rw [m.isOn_enter]
      simp only [said, and_true]
      rfl
  | write ledger context logs =>
    refine .of_still rfl rfl fun event member => ?_
    obtain ⟨level, message, rfl⟩ := logs event member
    rfl

theorem Sticks.refl (s : Session) : Sticks s s := .of_still rfl (List.nil_append _).symm nofun

theorem Sticks.trans (first : Sticks s t) (rest : Sticks t u) : Sticks s u := by
  have trace : u.trace = (u.since t ++ t.since s) ++ s.trace := by
    rw [List.append_assoc, ← first.trace, ← rest.trace]
  have since := Session.since_eq trace
  -- What is asked later is asked in a mode that was off, and then no answer has entered it.
  have fresh {m : Mode} (off : m.isOn t.policy = false) :
      m.isOn s.policy = false ∧ ∀ event ∈ t.since s, ¬m.Entered event := by
    have stays := (first.on m).not.mp (Bool.eq_false_iff.mp off)
    rw [not_or, not_exists] at stays
    exact ⟨Bool.eq_false_iff.mpr stays.1,
      fun event member entered => stays.2 event ⟨member, entered⟩⟩
  refine ⟨rest.fixed.trans first.fixed, by rw [since, trace], fun m => ?_, ?_, fun m => ?_⟩
  · rw [rest.on, first.on, since]
    simp only [List.mem_append, or_and_right, exists_or]
    rw [or_assoc, or_comm (a := ∃ event, event ∈ t.since s ∧ m.Entered event)]
  · intro m event member asked
    rw [since] at member
    rcases List.mem_append.mp member with later | earlier
    · obtain ⟨confirms, off⟩ := rest.asked m event later asked
      exact ⟨Mode.confirms_eq first.fixed m ▸ confirms, (fresh off).1⟩
    · exact first.asked m event earlier asked
  · rw [since, List.pairwise_append]
    refine ⟨rest.last m, first.last m, fun event later other earlier asked => ?_⟩
    exact (fresh (rest.asked m event later asked).2).2 other earlier

abbrev Moves : Session → Session → Prop := Relation.ReflTransGen Move

theorem Moves.sticks (moves : Moves s t) : Sticks s t := by
  induction moves with
  | refl => exact .refl s
  | tail _ move ih => exact ih.trans move.sticks

theorem Moves.moments (moves : Moves s t) :
    ∃ moments, (s :: moments).IsChain Move ∧
      (s :: moments).getLast (List.cons_ne_nil s moments) = t ∧ (s :: moments).Pairwise Sticks := by
  obtain ⟨moments, chain, ends⟩ := List.exists_isChain_cons_of_relationReflTransGen moves
  have between : (s :: moments).Pairwise Moves := (chain.imp fun _ _ => .single).pairwise
  exact ⟨moments, chain, ends, between.imp Moves.sticks⟩

/-! ### The deeds of a job -/

namespace Deed

theorem Still.of_events {d : Deed} (policy : ∀ s, (d.after s).policy = s.policy)
    (none : ∀ s, d.events s = []) : d.Still := by
  refine ⟨policy, fun s event member => ?_⟩
  rw [none s] at member
  cases member

theorem Aside.still {d : Deed} (h : d.Aside) : d.Still :=
  ⟨h.after_policy, fun _ _ member => (h.events member).unconfirmed⟩

theorem Inquires.still {d : Deed} (h : d.Inquires) : d.Still := h.aside.still

theorem Attends.still {d : Deed} (h : d.Attends) : d.Still := by
  cases d with
  | addStep | endStep | failStep =>
    exact .of_events (fun s => by simp [after, play, Job.failLast]) fun _ => rfl
  | execute =>
    refine ⟨fun s => by simp [after, play, perform_discard], fun s event member => ?_⟩
    rw [List.mem_singleton.mp member]
    rfl
  | pause | call | keepMock => exact Aside.still trivial
  | log | echo | ask | remember | register => exact Inquires.still h
  | _ => exact h.elim

theorem Between.still {job : Scalar} {d : Deed} (h : d.Between job) : d.Still := by
  cases d with
  | recordJob => exact Aside.still trivial
  | start | skip => exact .of_events (fun s => by simp [after, play, Job.skip]) fun _ => rfl
  | log | echo | ask | remember | register => exact Inquires.still h
  | _ => exact h.elim

end Deed

/-! ### The moves of a run -/

theorem Moves.deed {d : Deed} (still : d.Still) (moves : Moves s t) : Moves s (d.after t) :=
  Relation.ReflTransGen.tail moves (.deed still)

theorem Aside.moves (aside : Aside s t) : Moves s t := by
  obtain ⟨deeds, kind, rfl⟩ := aside
  have start : Moves s s := .refl
  exact Deed.all_keep (fun own moves => Moves.deed own.still moves) kind start

abbrev Proceeding {α : Type} (s : Session) (play : Play α) : Prop :=
  Maintains (Moves s) (fun _ => Moves s) play

theorem moving (s : Session) : Bears Deed.Still (Moves s) fun _ => Moves s where
  inquires h := h.still
  deed still moves := moves.deed still
  fault _ moves := moves

namespace Step

variable {q : Question}

theorem Granted.moves (own : Mode.commands.Asks q) (granted : Granted q s t) : Moves s t := by
  cases granted with
  | unasked all rest => exact rest.moves
  | once off said rest =>
    have asked : Move s ((Deed.ask q).after s) := .ask own rfl off (by rw [said]; nofun)
    exact rest.moves.head asked
  | always off said rest =>
    have entered : Move s (Deed.allowCommands.after ((Deed.ask q).after s)) :=
      .enter own rfl off said
    exact rest.moves.head entered

theorem ne_all_of_refused {answer : Confirmation} (refused : answer.grants = false) :
    answer ≠ .all := by
  rintro rfl
  cases refused

theorem Refused.moves (own : Mode.commands.Asks q) (refused : Refused q s t) : Moves s t := by
  have asked : Move s ((Deed.ask q).after s) :=
    .ask own rfl refused.some (ne_all_of_refused refused.said)
  exact refused.rest.moves.head asked

theorem commandAllowed_moves : Proceeding s commandAllowed := by
  have own : Mode.commands.Asks commandQuestion := .inl rfl
  refine .of_left fun before performed => ?_
  rcases decided_of_commandAllowed performed with ⟨rfl, granted⟩ | ⟨rfl, refused, -⟩ |
    ⟨rfl, refused, -⟩
  · exact before.trans (granted.moves own)
  · exact before.trans (refused.moves own)
  · exact before.trans (refused.moves own)

theorem goesOnAfterFailure_moves : Proceeding s goesOnAfterFailure := by
  have own : Mode.commands.Asks failureQuestion := .inr rfl
  refine .of_left fun {t u result} before performed => ?_
  have performed := ended_of_goesOnAfterFailure performed
  have moves : Moves t u := by
    generalize told : (result.map fun goes => (⟨.failed, !goes⟩ : Outcome)) = outcome at performed
    cases performed with
    | success good => cases good
    | goesOn bad granted => exact granted.moves own
    | stops bad refused => exact refused.moves own
    | quits bad refused => exact refused.moves own
  cases result <;> exact before.trans moves

theorem attending (s : Session) : Tends (Moves s) fun _ => Moves s where
  toBears := (moving s).mono (fun h => h.mocks.attends) Deed.Attends.still
  mismatch := Iff.rfl
  commands := commandAllowed_moves
  failures := goesOnAfterFailure_moves

end Step

namespace Job

theorem runStep_moves (site : Step.Site) (step : Value) (index : Nat) :
    Proceeding s (runStep site step index) := by
  have tends := Step.attending s
  refine maintains_runStep tends fun stepId outputs _ =>
    Step.maintains_recordOutputs tends.mocks fun t moves => ?_
  have aside : (Deed.recordStep site.job stepId outputs).Aside := trivial
  exact moves.deed aside.still

theorem confirmed_moves (title : String) : Proceeding s (confirmed title) := by
  refine .of_left fun {t u result} before performed => ?_
  by_cases unasked : (!t.policy.confirmJobs || t.policy.runAllJobs) = true
  · rw [confirmed, perform_get_bind, if_pos unasked] at performed
    cases performed
    exact before
  rw [Bool.or_eq_true, not_or, Bool.not_eq_true', Bool.not_eq_false, Bool.not_eq_true] at unasked
  obtain ⟨confirms, off⟩ := unasked
  have own : Mode.jobs.Asks (jobQuestion title) := ⟨title, rfl⟩
  have asked (other : Step.reply (jobQuestion title) t ≠ .all) :
      Moves s ((Deed.ask (jobQuestion title)).after t) :=
    Relation.ReflTransGen.tail before (.ask own confirms off other)
  have told {v : Session} (message : String) (moves : Moves s v) :
      Moves s ((Deed.log .info message).after v) := moves.deed (Deed.inquires_info message).still
  cases answered_of_perform performed with
  | unasked => exact before
  | yes said => exact asked (by rw [said]; decide)
  | all said =>
    have entered : Move t (Deed.allowJobs.after ((Deed.ask (jobQuestion title)).after t)) :=
      .enter own confirms off said
    exact told _ (Relation.ReflTransGen.tail before entered)
  | no said refused => exact told _ (asked (Step.ne_all_of_refused refused))
  | quit said =>
    have skips : Deed.skip.Still := .of_events (fun v => by simp [Deed.after, Deed.play, skip])
      fun _ => rfl
    exact (told _ (asked (by rw [said]; decide))).deed skips

theorem run_moves (workflow : Mapping) (root : String) (name : Scalar) (definition : Value) :
    Proceeding s (run workflow root name definition) := by
  have bears : Bears (Deed.Between name) (Moves s) fun _ => Moves s :=
    (moving s).mono Deed.Inquires.between Deed.Between.still
  apply maintains_run bears confirmed_moves
  intro site step index _ _
  exact runStep_moves site step index

end Job

namespace Run

variable {result ended : Except Fault Unit}

theorem Opened.moves (opened : Opened s t) : Moves s t := by
  obtain ⟨records, toolchain, logs, same⟩ := opened.rest
  rw [same]
  refine .single (.write _ _ fun event member => ?_)
  obtain ⟨message, rfl⟩ := logs event member
  exact ⟨.info, message, rfl⟩

theorem Written.moves (written : Written s t) : Moves s t := by
  obtain ⟨records, logs, same⟩ := written
  rw [same]
  exact .single (.write _ _ logs)

/-- **Modes.** A run is a row of moves. Between any two moments of it the policy is the same but for
the modes; a mode that is on stays on, and one that is off is entered exactly by an answer that asks
for it, to a confirmation of that mode and no other. A confirmation is asked for only as long as its
mode is off, and none about jobs if they need no confirmation. -/
theorem modes_stick (workflow : Mapping) (root : String) (s : Session) :
    ∃ moments, (s :: moments).IsChain Move ∧
      (s :: moments).getLast (List.cons_ne_nil s moments) =
        ((execute workflow root).perform s).2 ∧
      (s :: moments).Pairwise Sticks := by
  obtain ⟨start, turns, ended, last, opened, turned, closing⟩ := closing_of_execute workflow root s
  have noted (name : Scalar) (t : Session) (moves : Moves s t) :
      Moves s { t with ledger := t.ledger.complete name } :=
    moves.tail (.write _ _ (List.forall_mem_nil _))
  have left := turned.left (fun name job => Job.run_moves workflow _ name job) noted
    (moving s).fault opened.moves
  have moves : Moves s last := by cases ended <;> exact left
  exact Moves.moments (moves.trans closing.written.moves)

end Run
end Rehearsal
