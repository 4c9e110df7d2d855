import Rehearsal.Proofs.Step.Course

/-! A step executes at most one command, and only when it was confirmed right after it was shown,
unless all commands are to be executed. The events of the step tell so. -/

namespace Rehearsal.Step

open Play

/-- That an answer had all further commands executed. -/
def AllowsAll (events : List Event) : Prop :=
  ∃ q answer, (q = commandQuestion ∨ q = failureQuestion) ∧ .ask q answer ∈ events ∧
    Confirmation.parse answer = .all

/-- That an answer after a failed command ended the run. -/
def Quits (events : List Event) : Prop :=
  ∃ answer, .ask failureQuestion answer ∈ events ∧ Confirmation.parse answer = .quit

/-- The records by which a session shows a command, the latest first. -/
def records (command directory : String) (s : Session) : List Event :=
  logged .info ("Working directory: " ++ directory) s ++ logged .info ("Command: " ++ command) s

/-- That the latest confirmation was granted for a command, right after the records of this command
and its directory, and that nothing was executed since. -/
def Reviewed (logging : LogSettings) (command directory : String) (events : List Event) : Prop :=
  ∃ (later earlier : List Event) (answer : String) (shown : Session),
    events = later ++ .ask commandQuestion answer :: (records command directory shown ++ earlier) ∧
    (∀ event ∈ later, event.Aside) ∧ shown.logging = logging ∧
    (Confirmation.parse answer).grants = true

/-- What the events of a step tell of its command: none was executed, or one that was reviewed or
was allowed before. -/
inductive Consented (allowed : Prop) (logging : LogSettings) (events : List Event) : Prop where
  | idle (none : ∀ event ∈ events, event.isExec = false)
  | executed {command directory : String} {environment : Table String String}
      {toolchain : Option String} {later earlier : List Event}
      (same : events = later ++ .exec command directory environment toolchain :: earlier)
      (only : ∀ event ∈ later ++ earlier, event.isExec = false)
      (agreed : allowed ∨ Reviewed logging command directory earlier)
      (granted : ∀ answer, .ask commandQuestion answer ∈ events →
        (Confirmation.parse answer).grants = true)

theorem AllowsAll.mono {events more : List Event} (allows : AllowsAll events)
    (kept : events ⊆ more) : AllowsAll more := by
  obtain ⟨q, answer, about, asked, all⟩ := allows
  exact ⟨q, answer, about, kept asked, all⟩

theorem Consented.mono {allowed wider : Prop} {logging : LogSettings} {events : List Event}
    (consented : Consented allowed logging events) (weaker : allowed → wider) :
    Consented wider logging events := by
  cases consented with
  | idle none => exact .idle none
  | executed same only agreed granted => exact .executed same only (agreed.imp_left weaker) granted

variable {q : Question} {s t u : Session}

/-! ### The questions -/

def Heard (q : Question) (s : Session) (event : Event) : Prop :=
  event.Aside ∨ event = .ask q (answer q s)

theorem Heard.unexecuted {event : Event} (heard : Heard q s event) : event.isExec = false := by
  rcases heard with aside | rfl
  · exact aside.unexecuted
  · rfl

theorem Heard.eq_of_ask {other : Question} {said : String} (heard : Heard q s (.ask other said))
    (confirms : Answers.isConfirmation other.text = true) : other = q ∧ said = answer q s := by
  rcases heard with aside | same
  · exact absurd rfl (aside.ne_ask confirms)
  · injection same with question answered
    exact ⟨question, answered⟩

theorem Granted.trace (granted : Granted q s t) :
    ∃ new, t.trace = new ++ s.trace ∧ (∀ event ∈ new, Heard q s event) ∧
      (s.policy.runAllCommands = true ∧ (∀ event ∈ new, event.Aside) ∨
        (reply q s).grants = true ∧
          ∃ later, new = later ++ [.ask q (answer q s)] ∧ ∀ event ∈ later, event.Aside) ∧
      (t.policy.runAllCommands = true →
        s.policy.runAllCommands = true ∨ .ask q (answer q s) ∈ new ∧ reply q s = .all) := by
  have asks {later : List Event} (aside : ∀ event ∈ later, event.Aside) :
      ∀ event ∈ later ++ [.ask q (answer q s)], Heard q s event := by
    rw [List.forall_mem_append, List.forall_mem_singleton]
    exact ⟨fun event member => .inl (aside event member), .inr rfl⟩
  cases granted with
  | unasked all rest =>
    obtain ⟨new, trace, aside⟩ := rest.trace
    exact ⟨new, trace, fun event member => .inl (aside event member), .inl ⟨all, aside⟩,
      fun _ => .inl all⟩
  | once some said rest =>
    obtain ⟨later, trace, aside⟩ := rest.trace
    refine ⟨later ++ [.ask q (answer q s)], ?_, asks aside,
      .inr ⟨by rw [said]; rfl, later, rfl, aside⟩, ?_⟩
    · rw [trace, List.append_assoc]
      rfl
    · rw [rest.policy]
      exact .inl
  | always some said rest =>
    obtain ⟨later, trace, aside⟩ := rest.trace
    refine ⟨later ++ [.ask q (answer q s)], ?_, asks aside,
      .inr ⟨by rw [said]; rfl, later, rfl, aside⟩, fun _ => .inr ⟨?_, said⟩⟩
    · rw [trace, List.append_assoc]
      rfl
    · exact List.mem_append_right _ (List.mem_singleton_self _)

theorem Refused.trace (refused : Refused q s t) :
    ∃ new, t.trace = new ++ s.trace ∧ (∀ event ∈ new, Heard q s event) ∧
      .ask q (answer q s) ∈ new := by
  obtain ⟨later, trace, aside⟩ := refused.rest.trace
  refine ⟨later ++ [.ask q (answer q s)], ?_, ?_, ?_⟩
  · rw [trace, List.append_assoc]
    rfl
  · rw [List.forall_mem_append, List.forall_mem_singleton]
    exact ⟨fun event member => .inl (aside event member), .inr rfl⟩
  · exact List.mem_append_right _ (List.mem_singleton_self _)

/-! ### The phases of a step -/

theorem aside_proposed (command directory : String) (s : Session) :
    Aside s (proposed command directory s) :=
  Aside.trans (.log ..) (.log ..)

theorem aside_of_mem_records {command directory : String} {event : Event}
    (member : event ∈ records command directory s) : event.Aside :=
  (List.mem_append.mp member).elim .of_mem_logged .of_mem_logged

theorem trace_of_proposed (command directory : String) (before : Aside s u) :
    ∃ earlier, (proposed command directory u).trace =
      records command directory u ++ earlier ++ s.trace ∧
        ∀ event ∈ records command directory u ++ earlier, event.Aside := by
  obtain ⟨earlier, trace, aside⟩ := before.trace
  have shows : (proposed command directory u).trace = records command directory u ++ u.trace := by
    unfold proposed
    rw [Deed.all_cons, Deed.all_cons, Deed.all_nil, Deed.after_log, Deed.after_log]
    simp [records, logged]
  refine ⟨earlier, by rw [shows, trace, List.append_assoc], ?_⟩
  exact List.forall_mem_append.mpr ⟨fun _ => aside_of_mem_records, aside⟩

theorem trace_of_granted {command directory : String} (before : Aside s u)
    (granted : Granted commandQuestion (proposed command directory u) t) :
    ∃ new, t.trace = new ++ s.trace ∧
      (∀ event ∈ new, Heard commandQuestion (proposed command directory u) event) ∧
      (s.policy.runAllCommands = true ∧ (∀ event ∈ new, event.Aside) ∨
        (reply commandQuestion (proposed command directory u)).grants = true ∧
          Reviewed s.logging command directory new) ∧
      (t.policy.runAllCommands = true → s.policy.runAllCommands = true ∨ AllowsAll new) := by
  obtain ⟨own, trace, heard, allowed, all⟩ := granted.trace
  obtain ⟨earlier, proposes, plain⟩ := trace_of_proposed command directory before
  rw [(before.trans (aside_proposed command directory u)).policy] at allowed all
  refine ⟨own ++ (records command directory u ++ earlier), ?_, ?_, ?_, ?_⟩
  · rw [trace, proposes]
    simp only [List.append_assoc]
  · exact List.forall_mem_append.mpr ⟨heard, fun event member => .inl (plain event member)⟩
  · refine allowed.imp (fun ⟨all, aside⟩ => ⟨all, List.forall_mem_append.mpr ⟨aside, plain⟩⟩) ?_
    rintro ⟨grants, later, rfl, aside⟩
    exact ⟨grants, later, earlier, _, u, by simp, aside, before.logging, grants⟩
  · intro allows
    refine (all allows).imp_right fun ⟨member, said⟩ => ?_
    exact ⟨_, _, .inl rfl, List.mem_append_left _ member, said⟩

theorem trace_of_refused {command directory : String} (before : Aside s u)
    (refused : Refused commandQuestion (proposed command directory u) t) :
    ∃ new, t.trace = new ++ s.trace ∧ (∀ event ∈ new, event.isExec = false) ∧
      t.policy = s.policy := by
  obtain ⟨own, trace, heard, -⟩ := refused.trace
  obtain ⟨earlier, proposes, plain⟩ := trace_of_proposed command directory before
  refine ⟨own ++ (records command directory u ++ earlier), ?_, ?_, ?_⟩
  · rw [trace, proposes]
    simp only [List.append_assoc]
  · exact List.forall_mem_append.mpr ⟨fun event member => (heard event member).unexecuted,
      fun event member => (plain event member).unexecuted⟩
  · exact refused.policy.trans (before.trans (aside_proposed command directory u)).policy

theorem quits_iff {new : List Event} (heard : ∀ event ∈ new, Heard failureQuestion s event) :
    Quits new ↔ .ask failureQuestion (answer failureQuestion s) ∈ new ∧
      reply failureQuestion s = .quit := by
  constructor
  · rintro ⟨said, member, leaves⟩
    have same := ((heard _ member).eq_of_ask failureQuestion_confirms).2
    rw [same] at member leaves
    exact ⟨member, leaves⟩
  · rintro ⟨member, leaves⟩
    exact ⟨_, member, leaves⟩

/-- That a failed step is told as what it is: the user quit, or the step is recorded as failed. -/
def TellsFailure (events : List Event) (result : Except Fault Outcome) : Prop :=
  (result = .error .quit ∧ Quits events) ∨ (∃ halts, result = .ok ⟨.failed, halts⟩) ∧ ¬Quits events

theorem Ended.trace {succeeded : Bool} {result : Except Fault Outcome}
    (ended : Ended succeeded s result t) :
    ∃ new, t.trace = new ++ s.trace ∧ (∀ event ∈ new, Heard failureQuestion s event) ∧
      (t.policy.runAllCommands = true → s.policy.runAllCommands = true ∨ AllowsAll new) ∧
      (succeeded = false → TellsFailure new result) := by
  cases ended with
  | success good rest =>
    obtain ⟨new, trace, aside⟩ := rest.trace
    refine ⟨new, trace, fun event member => .inl (aside event member), ?_, ?_⟩
    · rw [rest.policy]
      exact .inl
    · rw [good]
      simp
  | goesOn bad granted =>
    obtain ⟨new, trace, heard, allowed, policy⟩ := granted.trace
    refine ⟨new, trace, heard, ?_, fun _ => .inr ⟨⟨false, rfl⟩, fun quits => ?_⟩⟩
    · exact fun all => (policy all).imp_right fun ⟨member, said⟩ => ⟨_, _, .inr rfl, member, said⟩
    · obtain ⟨member, leaves⟩ := (quits_iff heard).mp quits
      rcases allowed with ⟨-, aside⟩ | ⟨grants, -⟩
      · exact absurd rfl ((aside _ member).ne_ask failureQuestion_confirms)
      · rw [leaves] at grants
        cases grants
  | stops bad refused stays =>
    obtain ⟨new, trace, heard, -⟩ := refused.trace
    refine ⟨new, trace, heard, by rw [refused.policy]; exact .inl, fun _ => ?_⟩
    exact .inr ⟨⟨true, rfl⟩, fun quits => stays ((quits_iff heard).mp quits).2⟩
  | quits bad refused leaves =>
    obtain ⟨new, trace, heard, asked⟩ := refused.trace
    refine ⟨new, trace, heard, by rw [refused.policy]; exact .inl, fun _ => ?_⟩
    exact .inl ⟨rfl, (quits_iff heard).mpr ⟨asked, leaves⟩⟩

/-! ### The whole step -/

/-- What the events of a step with a command tell of it. -/
structure Told (s : Session) (result : Except Fault Outcome) (t : Session) (events : List Event) :
    Prop where
  trace : t.trace = events ++ s.trace
  consented : Consented (s.policy.runAllCommands = true) s.logging events
  allows : t.policy.runAllCommands = true → s.policy.runAllCommands = true ∨ AllowsAll events
  failed : (∃ event ∈ events, event.isExec = true) → (s.reports.headD {}).succeeded = false →
    TellsFailure events result

theorem Told.idle {result : Except Fault Outcome} {events : List Event}
    (trace : t.trace = events ++ s.trace) (none : ∀ event ∈ events, event.isExec = false)
    (allows : t.policy.runAllCommands = true →
      s.policy.runAllCommands = true ∨ AllowsAll events) : Told s result t events where
  trace := trace
  consented := .idle none
  allows := allows
  failed := by
    rintro ⟨event, member, executed⟩
    rw [none event member] at executed
    cases executed

theorem Granted.reports (granted : Granted q s t) : t.reports = s.reports := by
  cases granted with
  | unasked all rest => exact rest.reports
  | once some said rest => exact rest.reports
  | always some said rest => exact rest.reports

theorem told_of_executed {command directory : String} {environment : Table String String}
    {result : Except Fault Outcome} {v w : Session} (before : Aside s u)
    (granted : Granted commandQuestion (proposed command directory u) v)
    (shown : Aside ((Deed.execute command directory environment).after v) w)
    (ended : Ended (v.reports.headD {}).succeeded w result t) :
    ∃ events, Told s result t events := by
  obtain ⟨last, ends, reheard, again, fails⟩ := ended.trace
  obtain ⟨output, shows, aside⟩ := shown.trace
  obtain ⟨first, grants, heard, allowed, all⟩ := trace_of_granted before granted
  have reports : v.reports = s.reports :=
    granted.reports.trans (before.trans (aside_proposed command directory u)).reports
  have policy : w.policy = v.policy := by rw [shown.policy]; rfl
  have later : ∀ event ∈ last ++ output, event.isExec = false :=
    List.forall_mem_append.mpr ⟨fun event member => (reheard event member).unexecuted,
      fun event member => (aside event member).unexecuted⟩
  -- The answers for the command lie before its execution, those after a failure behind it.
  have nowhere (said : String) : .ask commandQuestion said ∉ last ++ output := by
    intro member
    rcases List.mem_append.mp member with m | m
    · have same := ((reheard _ m).eq_of_ask commandQuestion_confirms).1
      exact failureQuestion_ne_commandQuestion same.symm
    · exact absurd rfl ((aside _ m).ne_ask commandQuestion_confirms)
  have unfailed (said : String) : .ask failureQuestion said ∉ first := fun m =>
    failureQuestion_ne_commandQuestion ((heard _ m).eq_of_ask failureQuestion_confirms).1
  have quitting : Quits (last ++ output ++
      .exec command directory environment v.context.toolchain :: first) ↔ Quits last := by
    constructor
    · rintro ⟨said, member, leaves⟩
      rcases List.mem_append.mp member with m | m
      · rcases List.mem_append.mp m with m | m
        · exact ⟨said, m, leaves⟩
        · exact absurd rfl ((aside _ m).ne_ask failureQuestion_confirms)
      · cases m with
        | tail _ m => exact absurd m (unfailed said)
    · rintro ⟨said, member, leaves⟩
      exact ⟨said, by simp [member], leaves⟩
  refine ⟨last ++ output ++ .exec command directory environment v.context.toolchain :: first, ?_,
    .executed rfl ?_ ?_ ?_, ?_, fun _ bad => ?_⟩
  · rw [ends, shows, Deed.after_trace, grants]
    simp [Deed.events]
  · exact List.forall_mem_append.mpr ⟨later, fun event member => (heard event member).unexecuted⟩
  · exact allowed.imp (·.1) (·.2)
  · intro said member
    rcases List.mem_append.mp member with m | m
    · exact absurd m (nowhere said)
    · cases m with
      | tail _ m =>
        rcases allowed with ⟨-, aside⟩ | ⟨granted, -⟩
        · exact absurd rfl ((aside _ m).ne_ask commandQuestion_confirms)
        · rw [((heard _ m).eq_of_ask commandQuestion_confirms).2]
          exact granted
  · intro allows
    rcases again allows with before | answered
    · rw [policy] at before
      exact (all before).imp_right fun own => own.mono fun event m => by simp [m]
    · exact .inr (answered.mono fun event m => by simp [m])
  · rw [reports] at fails
    exact (fails bad).imp (And.imp_right quitting.mpr) (And.imp_right (mt quitting.mp))

theorem Course.told {result : Except Fault Outcome} (course : Course s result t) :
    ∃ events, Told s result t events := by
  cases course with
  | unproposed rest unfailed =>
    obtain ⟨new, trace, aside⟩ := rest.trace
    refine ⟨new, .idle trace (fun event member => (aside event member).unexecuted) ?_⟩
    rw [rest.policy]
    exact .inl
  | declined before refused other | quit before refused other =>
    obtain ⟨new, trace, none, policy⟩ := trace_of_refused before refused
    exact ⟨new, .idle trace none (by rw [policy]; exact .inl)⟩
  | unready before granted =>
    obtain ⟨new, trace, heard, -, allows⟩ := trace_of_granted before granted
    exact ⟨new, .idle trace (fun event member => (heard event member).unexecuted) allows⟩
  | executed before granted shown ended => exact told_of_executed before granted shown ended

end Rehearsal.Step
