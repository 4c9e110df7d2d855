import Rehearsal.Action.Terraform
import Rehearsal.Proofs.Play.Alike
import Rehearsal.Proofs.Play.Mirrors
import Rehearsal.Proofs.Play.Yields

/-! `Previews` relates the session of a dry run to that of the real one that it previews. A play of
the one `Rehearses` a play of the other if it comes to the same and keeps that relation, provided
that all that the real run executes comes back as it should. That is kept by the ways in which plays
are put together. -/

namespace Rehearsal

open Play

/-! ### What comes back -/

/-- A report that states a version of Terraform. -/
structure Terraform.Stated (report : Report) : Prop where
  succeeded : report.succeeded = true
  version : ∃ output version text digits, Json.parse report.output = .ok output ∧
    output.field? "terraform_version" = some version ∧ version.plain = .ok text ∧
    normalizeValue version = .ok digits

/-- That a command has succeeded and written no outputs. -/
structure Report.Quiet (report : Report) : Prop where
  succeeded : report.succeeded = true
  unwritten : Outputs.ofFile report.written = []

/-- That an execution has come back as it should: a command quietly, and Terraform, which is given
no file for outputs, with its version. -/
def Event.Serves (event : Event) (report : Report) : Prop :=
  if event.ran?.isSome then report.Quiet else Terraform.Stated report

namespace Session

def executed (start s : Session) : List Event := ((s.since start).filter Event.isExec).reverse

variable {start s t : Session} {new : List Event}

theorem executed_self : start.executed start = [] := by
  rw [executed, show start.since start = [] from since_eq rfl]
  rfl

theorem executed_append (grown : ∃ old, s.trace = old ++ start.trace)
    (added : t.trace = new ++ s.trace) :
    start.executed t = start.executed s ++ (new.filter Event.isExec).reverse := by
  obtain ⟨old, earlier⟩ := grown
  rw [executed, executed, since_eq earlier,
    since_eq (added.trans (by rw [earlier, ← List.append_assoc])), List.filter_append,
    List.reverse_append]

theorem executed_exec {event : Event} (grown : ∃ old, s.trace = old ++ start.trace)
    (added : t.trace = event :: s.trace) (executes : event.isExec = true) :
    start.executed t = start.executed s ++ [event] := by
  rw [executed_append grown (show t.trace = [event] ++ s.trace from added),
    List.filter_cons_of_pos executes]
  rfl

theorem executed_of_unexecuted (grown : ∃ old, s.trace = old ++ start.trace)
    (added : t.trace = new ++ s.trace) (unexecuted : ∀ event ∈ new, event.isExec = false) :
    start.executed t = start.executed s := by
  have none : new.filter Event.isExec = [] :=
    List.filter_eq_nil_iff.mpr fun event member => by rw [unexecuted event member]; nofun
  rw [executed_append grown added, none]
  exact List.append_nil _

end Session

/-- That all that a run executed came back as it should, and that no version failed to match. -/
structure Serves (start : Session) {α : Type} (result : Except Fault α) (s : Session) : Prop where
  matched : ∀ m, result ≠ .error (.mismatch m)
  reports : ∀ (i : Nat) (event : Event), (start.executed s)[i]? = some event →
    event.Serves (start.reports[i]?.getD {})

theorem Serves.of_ran {α : Type} {start s : Session} {result : Except Fault α} {ran : List Bool}
    (matched : ∀ m, result ≠ .error (.mismatch m))
    (same : (start.executed s).map (fun event => event.ran?.isSome) = ran)
    (reports : ∀ (i : Nat) (own : Bool), ran[i]? = some own →
      let report := start.reports[i]?.getD {}
      if own then report.Quiet else Terraform.Stated report) : Serves start result s := by
  refine ⟨matched, fun i event found => reports i event.ran?.isSome ?_⟩
  rw [← same, List.getElem?_map, found]
  rfl

theorem Serves.before {α β : Type} {start s t : Session} {first : Except Fault α}
    {result : Except Fault β} (serves : Serves start result t)
    (grown : ∃ old, s.trace = old ++ start.trace) (more : ∃ new, t.trace = new ++ s.trace)
    (matched : ∀ m, first ≠ .error (.mismatch m)) : Serves start first s := by
  obtain ⟨new, added⟩ := more
  refine ⟨matched, fun i event found => serves.reports i event ?_⟩
  obtain ⟨within, -⟩ := List.getElem?_eq_some_iff.mp found
  rw [Session.executed_append grown added, List.getElem?_append_left within, found]

/-! ### Sessions -/

/-- A mock that does the same in dry runs. -/
def Mock.Impartial (m : Mock) : Prop :=
  ∀ earlier (i : Invocation),
    m.respond earlier { i with dryRun := true } = m.respond earlier { i with dryRun := false }

/-- That all mocks do the same in dry runs, those that are known and those in files. -/
structure Registry.Impartial (r : Registry) : Prop where
  known : ∀ entry ∈ r.known, ∀ m, entry.2 = some m → m.Impartial
  files : ∀ entry ∈ r.files, ∀ m, entry.2 = .mock m → m.Impartial

def Session.dry (s : Session) : Session := { s with policy := { s.policy with dryRun := true } }

/-- That the second session is that of a dry run which previews the real run of the first one. Both
began with the same events and reports. -/
structure Previews (start s t : Session) : Prop where
  same : ∃ reports trace, t = { s.dry with reports, trace }
  live : s.policy.dryRun = false
  allowed : s.policy.runAllCommands = true
  impartial : s.registry.Impartial
  logging : s.logging = start.logging
  reports : s.reports = start.reports.drop (start.executed s).length
  mirrors : ∃ pairs, Mirrors start.logging start.trace s.trace t.trace pairs

def Deed.Shared : Deed → Prop
  | execute _ _ _ | call _ _ | pause => False
  | keepMock _ m => ∀ own, m = some own → own.Impartial
  | _ => True

theorem Deed.Shared.after_reports {d : Deed} (shared : d.Shared) (s : Session) :
    (d.after s).reports = s.reports := by
  cases d <;> first
    | exact shared.elim
    | simp [after, play, Play.echo, Play.perform_discard, Job.skip, Job.failLast]

theorem Deed.Shared.unexecuted {d : Deed} (shared : d.Shared) {s : Session} {event : Event}
    (member : event ∈ d.events s) : event.isExec = false := by
  cases d with
  | log => exact (Event.Aside.of_mem_logged member).unexecuted
  | echo | ask =>
    rw [List.mem_singleton.mp member]
    rfl
  | execute | call | pause => exact shared.elim
  | _ => cases member

theorem Deed.after_runAllCommands (d : Deed) {s : Session}
    (allowed : s.policy.runAllCommands = true) : (d.after s).policy.runAllCommands = true := by
  cases d <;>
    simp [after, play, Play.echo, Play.perform_discard, Job.skip, Job.failLast, allowed]

theorem Registry.Impartial.keep {r : Registry} (impartial : r.Impartial) (action : String)
    {m : Option Mock} (own : ∀ n, m = some n → n.Impartial) : (r.keep action m).Impartial := by
  exact ⟨Table.forall_mem_put (fun _ _ _ => own) own impartial.known, impartial.files⟩

theorem Deed.Shared.after_impartial {d : Deed} (shared : d.Shared) {s : Session}
    (impartial : s.registry.Impartial) : (d.after s).registry.Impartial := by
  cases d with
  | keepMock action m => exact impartial.keep action shared
  | execute | call | pause => exact shared.elim
  | log => rwa [Deed.after_log]
  | _ => exact impartial

namespace Previews

variable {start s t : Session}

theorem refl (live : s.policy.dryRun = false) (allowed : s.policy.runAllCommands = true)
    (impartial : s.registry.Impartial) :
    Previews s s s.dry where
  same := ⟨_, _, rfl⟩
  live := live
  allowed := allowed
  impartial := impartial
  logging := rfl
  reports := by rw [Session.executed_self]; rfl
  mirrors := ⟨[], .start⟩

theorem dry (previews : Previews start s t) : t.policy.dryRun = true := by
  obtain ⟨reports, trace, rfl⟩ := previews.same
  rfl

theorem registry (previews : Previews start s t) : t.registry = s.registry := by
  obtain ⟨reports, trace, rfl⟩ := previews.same
  rfl

theorem ledger (previews : Previews start s t) : t.ledger = s.ledger := by
  obtain ⟨reports, trace, rfl⟩ := previews.same
  rfl

theorem grown (previews : Previews start s t) : ∃ old, s.trace = old ++ start.trace :=
  previews.mirrors.elim fun _ mirrors => mirrors.grows

theorem grown_of {u : Session} (previews : Previews start s t)
    (more : ∃ new, u.trace = new ++ s.trace) : ∃ old, u.trace = old ++ start.trace := by
  obtain ⟨old, earlier⟩ := previews.grown
  obtain ⟨new, added⟩ := more
  exact ⟨new ++ old, by rw [added, earlier, List.append_assoc]⟩

/-- An execution of the real run uses up a report, and the dry run says something else or
nothing. -/
theorem execute {command directory : String} {environment : Table String String}
    {said : List Event} (previews : Previews start s t)
    (mirrored : ∀ {pairs}, Mirrors start.logging start.trace s.trace t.trace pairs →
      ∃ others, Mirrors start.logging start.trace
        (.exec command directory environment s.context.toolchain :: s.trace) (said ++ t.trace)
        others) :
    Previews start ((Deed.execute command directory environment).after s)
      { t with trace := said ++ t.trace } := by
  have grown := previews.grown
  obtain ⟨⟨reports, trace, rfl⟩, live, allowed, impartial, logging, due, pairs, mirrors⟩ := previews
  rw [Deed.after_execute]
  refine ⟨⟨reports, _, rfl⟩, live, allowed, impartial, logging, ?_, mirrored mirrors⟩
  rw [Session.executed_exec grown rfl rfl, List.length_append]
  exact (congrArg List.tail due).trans List.tail_drop

theorem served {α : Type} {command directory : String} {environment : Table String String}
    {result : Except Fault α} {u : Session} (previews : Previews start s t)
    (serves : Serves start result u)
    (more : ∃ new, u.trace =
      new ++ .exec command directory environment s.context.toolchain :: s.trace) :
    (Event.exec command directory environment s.context.toolchain).Serves
      (s.reports.headD {}) := by
  let after := (Deed.execute command directory environment).after s
  have added : after.trace = _ := Deed.after_trace ..
  have own : Serves start (.ok () : Except Fault Unit) after :=
    serves.before (previews.grown_of ⟨[_], added⟩) (by rwa [added]) nofun
  have found := own.reports (start.executed s).length _ (by
    rw [Session.executed_exec previews.grown added rfl]
    exact List.getElem?_concat_length ..)
  rwa [previews.reports, List.headD_eq_head?_getD, List.head?_drop]

theorem deed {d : Deed} (shared : d.Shared) (previews : Previews start s t) :
    Previews start (d.after s) (d.after t) := by
  have grown := previews.grown
  obtain ⟨⟨reports, trace, rfl⟩, live, allowed, impartial, logging, due, pairs, mirrors⟩ := previews
  refine ⟨?_, ?_, d.after_runAllCommands allowed, shared.after_impartial impartial, ?_, ?_,
    pairs, ?_⟩
  · cases d with
    | log =>
      rw [Deed.after_log, Deed.after_log]
      exact ⟨_, _, rfl⟩
    | execute | call | pause => exact shared.elim
    | _ => exact ⟨_, _, rfl⟩
  · rw [Deed.after_dryRun, live]
  · rw [Deed.after_logging, logging]
  · rw [shared.after_reports, due, Session.executed_of_unexecuted grown (d.after_trace s)
      fun _ => shared.unexecuted]
  · have said : d.events { s.dry with reports, trace } = d.events s := by cases d <;> rfl
    rw [Deed.after_trace, Deed.after_trace, said]
    exact mirrors.append fun _ => shared.unexecuted

end Previews

theorem likens_of_previews (job : Option Scalar) (start : Session) :
    Likens job (Previews start) where
  resolved := by
    rintro s t ⟨⟨_, _, rfl⟩, -⟩
    rfl
  jobs := by
    rintro s t ⟨⟨_, _, rfl⟩, -⟩
    rfl
  answers := by
    rintro s t ⟨⟨_, _, rfl⟩, -⟩
    rfl
  secrets := by
    rintro s t ⟨⟨_, _, rfl⟩, -⟩
    rfl
  steps := by
    rintro s t ⟨⟨_, _, rfl⟩, -⟩ owner - step name
    rfl
  deed := by
    intro s t d seeks previews
    refine previews.deed ?_
    cases d <;> trivial
  remember _ _ previews := previews.deed trivial

/-! ### Plays -/

structure Grows {α : Type} (play : Play α) : Prop where
  trace : ∀ s, ∃ new, (play.perform s).2.trace = new ++ s.trace

namespace Grows

variable {α β : Type}

theorem of_idle {play : Play α} (idle : ∀ s, (play.perform s).2 = s) : Grows play :=
  ⟨fun s => ⟨[], by rw [idle]; rfl⟩⟩

theorem of_does {Kind : Deed → Prop} {play : Play α} (does : Does Kind play) : Grows play := by
  refine ⟨fun s => ?_⟩
  obtain ⟨deeds, -, same⟩ := does.deeds s
  obtain ⟨new, added, -⟩ := Deed.all_events deeds s
  exact ⟨new, same ▸ added⟩

theorem pure (a : α) : Grows (Pure.pure a : Play α) := of_idle fun _ => rfl

theorem throw (fault : Fault) : Grows (MonadExcept.throw fault : Play α) := of_idle fun _ => rfl

theorem adopt (result : Except Fault α) : Grows (Play.adopt result) :=
  of_idle fun s => by rw [perform_adopt]

theorem log (level : Level) (message : String) : Grows (Play.log level message) :=
  ⟨fun s => ⟨_, by rw [perform_log]⟩⟩

theorem call (m : Mock) (i : Invocation) : Grows (Registry.call m i) :=
  ⟨fun s => ⟨_, by rw [perform_call]⟩⟩

theorem bind {play : Play α} {next : α → Play β} (first : Grows play)
    (rest : ∀ a, Grows (next a)) : Grows (play >>= next) := by
  refine ⟨fun s => ?_⟩
  obtain ⟨new, added⟩ := first.trace s
  rw [perform_bind]
  cases ran : play.perform s with
  | mk result u =>
    rw [ran] at added
    cases result with
    | error fault => exact ⟨new, added⟩
    | ok a =>
      obtain ⟨more, last⟩ := (rest a).trace u
      exact ⟨more ++ new, by rw [last, added, List.append_assoc]⟩

theorem get_bind {next : Session → Play α} (rest : ∀ s, Grows (next s)) :
    Grows (MonadState.get >>= next) := bind (of_idle fun _ => rfl) rest

theorem execute_bind {next : Report → Play α} (command directory : String)
    (environment : Table String String) (rest : ∀ report, Grows (next report)) :
    Grows (Play.execute command directory environment >>= next) :=
  bind ⟨fun s => ⟨[_], by rw [perform_execute]; rfl⟩⟩ rest

end Grows

/-- That a play of a dry run does what a play of the real run does, as long as all that the latter
executes comes back as it should. -/
structure Rehearses (start : Session) {α : Type} (real dry : Play α) : Prop where
  grows : Grows real
  follows : ∀ {s t}, Previews start s t →
    Serves start (real.perform s).1 (real.perform s).2 →
    (dry.perform t).1 = (real.perform s).1 ∧ Previews start (real.perform s).2 (dry.perform t).2

namespace Rehearses

variable {α β : Type} {start : Session}

theorem ends {real dry : Play α} {s t u : Session} {result : Except Fault α}
    (rehearses : Rehearses start real dry) (previews : Previews start s t)
    (ran : real.perform s = (result, u)) (serves : Serves start result u) :
    ∃ v, dry.perform t = (result, v) ∧ Previews start u v := by
  have follows := rehearses.follows previews
  rw [ran] at follows
  obtain ⟨same, after⟩ := follows serves
  exact ⟨(dry.perform t).2, Prod.ext same rfl, after⟩

theorem of_alike {play : Play α} (grows : Grows play) (alike : Alike (Previews start) play) :
    Rehearses start play play :=
  ⟨grows, fun previews _ => alike.outcome previews⟩

theorem pure (a : α) : Rehearses start (Pure.pure a) (Pure.pure a) :=
  .of_alike (.pure a) (.pure a)

theorem throw (fault : Fault) :
    Rehearses start (MonadExcept.throw fault : Play α) (MonadExcept.throw fault) :=
  .of_alike (.throw fault) (.throw fault)

theorem adopt (result : Except Fault α) : Rehearses start (Play.adopt result) (Play.adopt result) :=
  .of_alike (.adopt result) (.adopt result)

theorem fit (result : Except Unfit α) : Rehearses start (Play.fit result) (Play.fit result) :=
  adopt _

theorem of_deed {play : Play Unit} (d : Deed) (same : ∀ s, play.perform s = (.ok (), d.after s))
    (shared : d.Shared) : Rehearses start play play := by
  refine ⟨⟨fun s => ⟨_, by rw [same]; exact d.after_trace s⟩⟩, fun previews _ => ?_⟩
  rw [same, same]
  exact ⟨rfl, previews.deed shared⟩

theorem log (level : Level) (message : String) :
    Rehearses start (Play.log level message) (Play.log level message) :=
  of_deed (.log level message) (fun _ => Deed.perform_log_eq_after ..) trivial

theorem info (message : String) : Rehearses start (Play.info message) (Play.info message) :=
  log ..

theorem modifyLedger (f : Ledger → Ledger) :
    Rehearses start (Play.modifyLedger f) (Play.modifyLedger f) := by
  refine ⟨⟨fun _ => ⟨[], rfl⟩⟩, fun previews _ => ⟨rfl, ?_⟩⟩
  obtain ⟨⟨reports, trace, rfl⟩, live, allowed, impartial, logging, due, mirrors⟩ := previews
  exact ⟨⟨_, _, rfl⟩, live, allowed, impartial, logging, due, mirrors⟩

theorem modifyContext (f : Context → Context) :
    Rehearses start (Play.modifyContext f) (Play.modifyContext f) := by
  refine ⟨⟨fun _ => ⟨[], rfl⟩⟩, fun previews _ => ⟨rfl, ?_⟩⟩
  obtain ⟨⟨reports, trace, rfl⟩, live, allowed, impartial, logging, due, mirrors⟩ := previews
  exact ⟨⟨_, _, rfl⟩, live, allowed, impartial, logging, due, mirrors⟩

theorem ask (question : Question) :
    Rehearses start (Play.ask question) (Play.ask question) :=
  .of_alike ⟨fun _ => ⟨[_], rfl⟩⟩ (.ask (likens_of_previews none start).toAgrees question)

theorem mask (text : String) : Rehearses start (Play.mask text) (Play.mask text) :=
  .of_alike (.of_idle fun _ => rfl) (.mask (likens_of_previews none start) text)

theorem bind_given {real dry : Play α} {next after : α → Play β} {Told : α → Prop}
    (first : Rehearses start real dry)
    (told : ∀ {s t}, Previews start s t → ∀ a, (real.perform s).1 = .ok a → Told a)
    (grows : ∀ a, Grows (next a)) (rest : ∀ a, Told a → Rehearses start (next a) (after a)) :
    Rehearses start (real >>= next) (dry >>= after) := by
  refine ⟨first.grows.bind grows, fun {s t} previews serves => ?_⟩
  have grown := previews.grown_of (first.grows.trace s)
  have known := told previews
  rw [perform_bind] at serves ⊢
  rw [perform_bind]
  cases ran : real.perform s with
  | mk result u =>
    rw [ran] at serves grown known
    cases result with
    | error fault =>
      have own : Serves start (.error fault : Except Fault α) u := by
        refine serves.before grown ⟨[], rfl⟩ ?_
        rintro m ⟨⟩
        exact serves.matched m rfl
      obtain ⟨v, played, after⟩ := first.ends previews ran own
      rw [played]
      exact ⟨rfl, after⟩
    | ok a =>
      have own : Serves start (.ok a) u := serves.before grown ((grows a).trace u) nofun
      obtain ⟨v, played, after⟩ := first.ends previews ran own
      rw [played]
      exact (rest a (known a rfl)).follows after serves

theorem bind {real dry : Play α} {next after : α → Play β} (first : Rehearses start real dry)
    (rest : ∀ a, Rehearses start (next a) (after a)) :
    Rehearses start (real >>= next) (dry >>= after) :=
  bind_given first (fun _ _ _ => trivial) (fun a => (rest a).grows) fun a (_ : True) => rest a

theorem bind_yields {real dry : Play α} {next after : α → Play β} {Result : α → Prop}
    (first : Rehearses start real dry)
    (yields : Yields (·.registry.Impartial) (fun _ => True) Result real)
    (grows : ∀ a, Grows (next a)) (rest : ∀ a, Result a → Rehearses start (next a) (after a)) :
    Rehearses start (real >>= next) (dry >>= after) := by
  refine bind_given first (fun {s t} previews a ran => ?_) grows rest
  have ends := (yields.outcome s previews.impartial).2
  rwa [ran] at ends

theorem bind_adopt {result : Except Fault α} {next after : α → Play β}
    (rest : ∀ a, result = .ok a → Rehearses start (next a) (after a)) :
    Rehearses start (Play.adopt result >>= next) (Play.adopt result >>= after) := by
  cases result with
  | error fault => exact ⟨.of_idle fun _ => rfl, fun previews _ => ⟨rfl, previews⟩⟩
  | ok a =>
    show Rehearses start (Pure.pure a >>= next) (Pure.pure a >>= after)
    rw [pure_bind, pure_bind]
    exact rest a rfl

theorem of_get {next after : Session → Play β} (grows : Grows (MonadState.get >>= next))
    (rest : ∀ {s t}, Previews start s t → Rehearses start (next s) (after t)) :
    Rehearses start (MonadState.get >>= next) (MonadState.get >>= after) := by
  refine ⟨grows, fun {s t} previews serves => ?_⟩
  rw [perform_get_bind] at serves ⊢
  rw [perform_get_bind]
  exact (rest previews).follows previews serves

theorem get_bind {next : Session → Play β}
    (same : ∀ {s t}, Previews start s t → next t = next s)
    (rest : ∀ s, Rehearses start (next s) (next s)) :
    Rehearses start (MonadState.get >>= next) (MonadState.get >>= next) := by
  refine of_get (.get_bind fun s => (rest s).grows) fun {s t} previews => ?_
  rw [same previews]
  exact rest s

theorem fork {real dry : Play α} (rehearses : Rehearses start real dry) (grows : Grows dry) :
    Rehearses start (MonadState.get >>= fun s => if s.policy.dryRun then dry else real)
      (MonadState.get >>= fun s => if s.policy.dryRun then dry else real) := by
  refine of_get (.get_bind fun s => ?_) fun {s t} previews => ?_
  · split
    · exact grows
    · exact rehearses.grows
  · rwa [previews.live, previews.dry, if_neg Bool.false_ne_true, if_pos rfl]

theorem tryCatch {real dry : Play α} {handle : Fault → Play α} (first : Rehearses start real dry)
    (rest : ∀ fault, Rehearses start (handle fault) (handle fault))
    (matched : ∀ m s, ((handle (.mismatch m)).perform s).1 = .error (.mismatch m)) :
    Rehearses start (MonadExcept.tryCatch real handle) (MonadExcept.tryCatch dry handle) := by
  constructor
  · refine ⟨fun s => ?_⟩
    obtain ⟨new, added⟩ := first.grows.trace s
    rw [perform_tryCatch]
    cases ran : real.perform s with
    | mk result u =>
      rw [ran] at added
      cases result with
      | ok a => exact ⟨new, added⟩
      | error fault =>
        obtain ⟨more, last⟩ := (rest fault).grows.trace u
        exact ⟨more ++ new, by rw [last, added, List.append_assoc]⟩
  · intro s t previews serves
    have grown := previews.grown_of (first.grows.trace s)
    rw [perform_tryCatch] at serves ⊢
    rw [perform_tryCatch]
    cases ran : real.perform s with
    | mk result u =>
      rw [ran] at serves grown
      cases result with
      | ok a =>
        obtain ⟨v, played, after⟩ := first.ends previews ran serves
        rw [played]
        exact ⟨rfl, after⟩
      | error fault =>
        have own : Serves start (.error fault : Except Fault α) u := by
          refine serves.before grown ((rest fault).grows.trace u) ?_
          rintro m ⟨⟩
          exact serves.matched m (matched m u)
        obtain ⟨v, played, after⟩ := first.ends previews ran own
        rw [played]
        exact (rest fault).follows after serves

/-! ### What only one of the runs does -/

theorem of_live {play : Play Unit}
    (live : ∀ s, ∃ new, (∀ event ∈ new, event.Live) ∧ (∀ event ∈ new, event.isExec = false) ∧
      play.perform s = (.ok (), { s with trace := new ++ s.trace })) :
    Rehearses start play (Pure.pure ()) := by
  refine ⟨⟨fun s => ?_⟩, fun {s t} previews _ => ?_⟩
  · obtain ⟨new, -, -, same⟩ := live s
    exact ⟨new, by rw [same]⟩
  · obtain ⟨new, live, unexecuted, same⟩ := live s
    have grown := previews.grown
    obtain ⟨⟨reports, trace, rfl⟩, real, allowed, impartial, logging, due, pairs, mirrors⟩ :=
      previews
    rw [same]
    refine ⟨rfl, ⟨reports, trace, rfl⟩, real, allowed, impartial, logging, ?_, pairs,
      mirrors.work live⟩
    rw [Session.executed_of_unexecuted grown rfl unexecuted]
    exact due

theorem of_said {play : Play Unit} (level : Level) (text : Session → String)
    (performs : ∀ s, play.perform s =
      (.ok (), { s with trace := logged level (text s) s ++ s.trace })) :
    Rehearses start play (Pure.pure ()) := by
  refine of_live fun s => ⟨_, fun event member => ?_, fun event member => ?_, performs s⟩
  · obtain ⟨message, rfl⟩ := eq_log_of_mem_logged member
    trivial
  · exact (Event.Aside.of_mem_logged member).unexecuted

theorem of_log (level : Level) (message : String) :
    Rehearses start (Play.log level message) (Pure.pure ()) :=
  of_said level (fun _ => message) fun _ => perform_log ..

theorem after_live {play : Play Unit} {next : Unit → Play β} {dry : Play β}
    (first : Rehearses start play (Pure.pure ())) (rest : Rehearses start (next ()) dry) :
    Rehearses start (play >>= next) dry := by
  show Rehearses start (play >>= next) (Pure.pure () >>= fun _ => dry)
  exact bind first fun _ => rest

theorem of_hint {message : String} (hints : Hints message) :
    Rehearses start (Pure.pure ()) (Play.info message) := by
  refine ⟨.pure (), fun {s t} previews _ => ?_⟩
  obtain ⟨⟨reports, trace, rfl⟩, real, allowed, impartial, logging, due, pairs, mirrors⟩ := previews
  rw [Play.info, perform_log]
  exact ⟨rfl, ⟨reports, _, rfl⟩, real, allowed, impartial, logging, due, pairs,
    mirrors.hint hints logging⟩

theorem after_hint {message : String} {real : Play β} {next : Unit → Play β} (hints : Hints message)
    (rest : Rehearses start real (next ())) :
    Rehearses start real (Play.info message >>= next) := by
  show Rehearses start (Pure.pure () >>= fun _ => real) (Play.info message >>= next)
  exact bind (of_hint hints) fun _ => rest

theorem of_command {command directory : String} {environment : Table String String}
    {next : Report → Play β} {dry : Play β}
    (file : Table.has Command.outputVariable environment = true)
    (grows : ∀ report, Grows (next report))
    (rest : ∀ report, report.Quiet → Rehearses start (next report) dry) :
    Rehearses start (execute command directory environment >>= next)
      (Play.info (previewText command directory) >>= fun _ => dry) := by
  have isRun (toolchain : Option String) :
      (Event.exec command directory environment toolchain).ran? = some (command, directory) :=
    if_pos file
  refine ⟨.execute_bind _ _ _ grows, fun {s t} previews serves => ?_⟩
  rw [perform_bind_ok (Deed.perform_execute_eq_after ..)] at serves ⊢
  have quiet := previews.served serves ((grows _).trace _)
  rw [Event.Serves, if_pos (by rw [isRun]; rfl)] at quiet
  have said : (Play.info (previewText command directory)).perform t = _ := perform_log ..
  rw [perform_bind_ok said]
  refine (rest _ quiet).follows (previews.execute fun mirrors => ?_) serves
  obtain ⟨reports, trace, rfl⟩ := previews.same
  exact ⟨_, mirrors.command command directory _ file previews.logging⟩

theorem of_version {command directory : String} {environment : Table String String}
    {next : Report → Play β} {dry : Play β}
    (unfiled : Table.has Command.outputVariable environment = false)
    (grows : ∀ report, Grows (next report))
    (rest : ∀ report, Terraform.Stated report → Rehearses start (next report) dry) :
    Rehearses start (execute command directory environment >>= next) dry := by
  have isNone (toolchain : Option String) :
      (Event.exec command directory environment toolchain).ran? = none := by
    rw [Event.ran?, unfiled]
    rfl
  refine ⟨.execute_bind _ _ _ grows, fun {s t} previews serves => ?_⟩
  rw [perform_bind_ok (Deed.perform_execute_eq_after ..)] at serves ⊢
  have stated := previews.served serves ((grows _).trace _)
  rw [Event.Serves, if_neg (by rw [isNone]; exact Bool.false_ne_true)] at stated
  have silent : Previews start ((Deed.execute command directory environment).after s)
      { t with trace := [] ++ t.trace } :=
    previews.execute fun mirrors => ⟨_, mirrors.live unfiled⟩
  exact (rest _ stated).follows silent serves

theorem of_call {m : Mock} {given : Table String String} {directory stepId : String}
    {next : Reply → Play β} (impartial : m.Impartial)
    (rest : ∀ told, Rehearses start (next told) (next told)) :
    Rehearses start
      (MonadState.get >>= fun s =>
        Registry.call m ⟨given, directory, stepId, s.policy.dryRun⟩ >>= next)
      (MonadState.get >>= fun s =>
        Registry.call m ⟨given, directory, stepId, s.policy.dryRun⟩ >>= next) := by
  refine of_get (.get_bind fun s => .bind (.call ..) fun told => (rest told).grows)
    fun {s t} previews => ?_
  rw [previews.live, previews.dry]
  refine bind ⟨.call .., fun {s t} previews _ => ?_⟩ rest
  have grown := previews.grown
  obtain ⟨⟨reports, trace, rfl⟩, live, allowed, fair, logging, due, pairs, mirrors⟩ := previews
  rw [perform_call, perform_call]
  refine ⟨congrArg Except.ok (impartial s.registry.calls ⟨given, directory, stepId, false⟩),
    ⟨reports, _, rfl⟩, live, allowed, ⟨fair.known, fair.files⟩, logging, ?_, pairs, ?_⟩
  · rw [Session.executed_of_unexecuted grown rfl fun event member => ?_]
    · exact due
    · obtain ⟨name, -, rfl⟩ := by simpa using member
      rfl
  · cases m.record with
    | none => exact mirrors
    | some name => exact mirrors.mock name ⟨given, directory, stepId, false⟩

theorem of_mismatch {real dry : Play α} (grows : Grows real)
    (ends : ∀ s, ∃ m, (real.perform s).1 = .error (.mismatch m)) : Rehearses start real dry := by
  refine ⟨grows, fun {s t} previews serves => ?_⟩
  obtain ⟨m, same⟩ := ends s
  exact absurd same (serves.matched m)

end Rehearses
end Rehearsal
