import Rehearsal.Proofs.Job.Deeds

/-! Most of what a job does to a session decides nothing: it writes, asks for a value or notes what
it learned. Such deeds execute no command, confirm nothing and leave the policy, the results and the
reports to come as they are. -/

namespace Rehearsal

/-- The events of a session since an earlier one, the latest first. -/
def Session.since (t s : Session) : List Event := t.trace.take (t.trace.length - s.trace.length)

theorem Session.since_eq {s t : Session} {new : List Event} (added : t.trace = new ++ s.trace) :
    t.since s = new := by
  simp [since, added]

namespace Event

def isExec : Event → Bool
  | exec .. => true
  | _ => false

def isConfirmation : Event → Bool
  | ask question _ => Answers.isConfirmation question.text
  | _ => false

/-- That nothing was confirmed or executed. -/
structure Aside (event : Event) : Prop where
  unexecuted : event.isExec = false
  unconfirmed : event.isConfirmation = false

theorem Aside.of_mem_logged {level : Level} {message : String} {s : Session} {event : Event}
    (member : event ∈ Play.logged level message s) : event.Aside := by
  unfold Play.logged at member
  split at member
  · rw [List.mem_singleton.mp member]
    exact ⟨rfl, rfl⟩
  · cases member

theorem Aside.ne_ask {event : Event} (aside : event.Aside) {question : Question} {answer : String}
    (confirms : Answers.isConfirmation question.text = true) : event ≠ .ask question answer := by
  rintro rfl
  have unconfirmed : Answers.isConfirmation question.text = false := aside.unconfirmed
  rw [confirms] at unconfirmed
  cases unconfirmed

end Event

namespace Deed

/-- The deeds that execute nothing, confirm nothing, and change neither the policy nor the
results. -/
def Aside : Deed → Prop
  | ask question => Answers.isConfirmation question.text = false
  | execute _ _ _ | allowJobs | allowCommands | start _ | skip | addStep _ | endStep _ | failStep =>
    False
  | _ => True

theorem Inquires.aside {d : Deed} (h : d.Inquires) : d.Aside := by
  cases d <;> first | exact h | exact h.elim | trivial

theorem Aside.after_policy {d : Deed} (h : d.Aside) (s : Session) :
    (d.after s).policy = s.policy := by
  cases d <;> first | exact h.elim | simp [after, play, Play.echo, Play.perform_discard]

theorem Aside.after_ledger {d : Deed} (h : d.Aside) (s : Session) :
    (d.after s).ledger = s.ledger := by
  cases d <;> first | exact h.elim | simp [after, play, Play.echo, Play.perform_discard]

theorem Aside.after_reports {d : Deed} (h : d.Aside) (s : Session) :
    (d.after s).reports = s.reports := by
  cases d <;> first | exact h.elim | simp [after, play, Play.echo, Play.perform_discard]

theorem Aside.events {d : Deed} (h : d.Aside) {s : Session} {event : Event}
    (member : event ∈ d.events s) : event.Aside := by
  cases d with
  | log => exact .of_mem_logged member
  | echo | ask | pause =>
    rw [List.mem_singleton.mp member]
    exact ⟨rfl, by first | exact h | rfl⟩
  | call m invocation =>
    obtain ⟨name, -, rfl⟩ := by simpa [Deed.events] using member
    exact ⟨rfl, rfl⟩
  | execute => exact h.elim
  | _ => cases member

end Deed

def Aside (s t : Session) : Prop := ∃ deeds, (∀ d ∈ deeds, d.Aside) ∧ t = Deed.all deeds s

namespace Aside

variable {s t u : Session}

theorem refl (s : Session) : Aside s s := ⟨[], by simp, rfl⟩

theorem trans (first : Aside s t) (rest : Aside t u) : Aside s u := by
  obtain ⟨deeds, kind, same⟩ := first
  exact Deed.exists_all_append kind same rest

theorem deed {d : Deed} (h : d.Aside) (s : Session) : Aside s (d.after s) := ⟨[d], by simpa, rfl⟩

theorem log (level : Level) (message : String) (s : Session) :
    Aside s ((Deed.log level message).after s) :=
  deed (show Deed.Aside (.log level message) from trivial) s

theorem of_info {α : Type} {message : String} {next : Unit → Play α} {result : Except Fault α}
    (performed : (Play.info message >>= next).perform s = (result, t)) :
    ∃ u, Aside s u ∧ (next ()).perform u = (result, t) := by
  rw [Play.perform_bind_ok (Deed.perform_info_eq_after ..)] at performed
  exact ⟨_, log .., performed⟩

theorem of_does {α : Type} {play : Play α} (does : Does Deed.Aside play)
    {result : Except Fault α} (performed : play.perform s = (result, t)) : Aside s t := by
  obtain ⟨deeds, kind, same⟩ := does.deeds s
  exact ⟨deeds, kind, by rw [← same, performed]⟩

theorem of_inquires {α : Type} {play : Play α} (does : Does Deed.Inquires play)
    {result : Except Fault α} (performed : play.perform s = (result, t)) : Aside s t :=
  of_does (does.mono fun _ => Deed.Inquires.aside) performed

theorem keeps {β : Type} (part : Session → β)
    (kept : ∀ d s, Deed.Aside d → part (d.after s) = part s) (aside : Aside s t) :
    part t = part s := by
  obtain ⟨deeds, kind, rfl⟩ := aside
  exact Deed.all_same part kept kind s

theorem policy (aside : Aside s t) : t.policy = s.policy :=
  aside.keeps (·.policy) fun _ s h => h.after_policy s

theorem ledger (aside : Aside s t) : t.ledger = s.ledger :=
  aside.keeps (·.ledger) fun _ s h => h.after_ledger s

theorem reports (aside : Aside s t) : t.reports = s.reports :=
  aside.keeps (·.reports) fun _ s h => h.after_reports s

theorem logging (aside : Aside s t) : t.logging = s.logging :=
  aside.keeps (·.logging) fun d s _ => d.after_logging s

theorem trace (aside : Aside s t) :
    ∃ new, t.trace = new ++ s.trace ∧ ∀ event ∈ new, event.Aside := by
  obtain ⟨deeds, kind, rfl⟩ := aside
  obtain ⟨new, added, own⟩ := Deed.all_events deeds s
  refine ⟨new, added, ?_⟩
  intro event member
  obtain ⟨d, done, u, -, left⟩ := own event member
  exact (kind d done).events left

end Aside
end Rehearsal
