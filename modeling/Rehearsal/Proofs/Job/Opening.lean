import Rehearsal.Proofs.Job.History

/-! Before its first step an instance is placed in the ledger, confirmed, and its condition decided.
`Opening` lists where this can lead; whatever is done until then is idle. -/

namespace Rehearsal

open Play

variable {s t u : Session}

/-- That no command was executed, no mock called and no output recorded between two sessions. -/
structure Idle (s t : Session) : Prop where
  trace : ∃ new, t.trace = new ++ s.trace ∧ ∀ event ∈ new, event.isExec = false
  reports : t.reports = s.reports
  calls : t.registry.calls = s.registry.calls
  outputs : s.SameOutputs t

theorem Idle.refl (s : Session) : Idle s s :=
  ⟨⟨[], rfl, List.forall_mem_nil _⟩, rfl, rfl, rfl, rfl⟩

theorem Idle.trans (first : Idle s t) (rest : Idle t u) : Idle s u := by
  obtain ⟨new, added, idle⟩ := first.trace
  obtain ⟨more, adds, idles⟩ := rest.trace
  refine ⟨⟨more ++ new, ?_, List.forall_mem_append.mpr ⟨idles, idle⟩⟩,
    rest.reports.trans first.reports, rest.calls.trans first.calls,
    first.outputs.trans rest.outputs⟩
  rw [adds, added, List.append_assoc]

namespace Deed

/-- The deeds that open an instance, once it is placed in the ledger. -/
def Opens : Deed → Prop
  | ask question =>
    Answers.isConfirmation question.text = false ∨ ∃ title, question = Job.jobQuestion title
  | allowJobs => True
  | d => d.Inquires

theorem Inquires.opens {d : Deed} (h : d.Inquires) : d.Opens := by
  cases d <;> first | exact h | exact .inl h | exact h.elim

theorem Opens.spares {d : Deed} (h : d.Opens) : d.Spares := by
  intro s
  cases d <;> first
    | exact h.elim
    | constructor <;> simp [after, play, Play.echo, Play.perform_discard, Context.remember]

theorem Opens.idle {d : Deed} (h : d.Opens) (s : Session) : Idle s (d.after s) := by
  refine ⟨⟨d.events s, d.after_trace s, fun event member => ?_⟩, ?_, ?_, h.spares s⟩
  · cases d with
    | log => exact (Event.Aside.of_mem_logged member).unexecuted
    | ask | echo =>
      rw [List.mem_singleton.mp member]
      rfl
    | execute | call | pause => exact h.elim
    | _ => cases member
  all_goals
    cases d <;> first | exact h.elim | simp [after, play, Play.echo, Play.perform_discard]

theorem Opens.after_ledger {d : Deed} (h : d.Opens) (s : Session) :
    (d.after s).ledger = s.ledger := by
  cases d <;> first | exact h.elim | simp [after, play, Play.echo, Play.perform_discard]

end Deed

namespace Job

open Step (Site)

variable {site : Site} {definition : Mapping} {name : Scalar} {result : Except Fault Unit}

/-- That an instance is placed in the ledger under a name and being opened. -/
def Opened (name : Scalar) (s t : Session) : Prop :=
  Reaches Deed.Opens { s with ledger := s.ledger.start name } t

namespace Opened

theorem start (name : Scalar) (s : Session) :
    Opened name s { s with ledger := s.ledger.start name } := Reaches.refl _

theorem deed {d : Deed} (opens : d.Opens) (opened : Opened name s t) : Opened name s (d.after t) :=
  Reaches.deed opens opened

theorem inquires {α : Type} {play : Play α} {outcome : Except Fault α} (opened : Opened name s t)
    (does : Does Deed.Inquires play) (performed : play.perform t = (outcome, u)) :
    Opened name s u :=
  Reaches.trans opened ((Reaches.of_does does performed).mono Deed.Inquires.opens)

theorem keeps (opened : Opened name s t) :
    t.ledger = s.ledger.start name ∧ Idle s t := by
  obtain ⟨deeds, opens, rfl⟩ := opened
  have start : ({ s with ledger := s.ledger.start name } : Session).ledger = s.ledger.start name ∧
      Idle s { s with ledger := s.ledger.start name } :=
    ⟨rfl, ⟨[], rfl, List.forall_mem_nil _⟩, rfl, rfl, rfl, rfl⟩
  generalize { s with ledger := s.ledger.start name } = v at start
  induction deeds generalizing v with
  | nil => exact start
  | cons d deeds ih =>
    obtain ⟨own, others⟩ := List.forall_mem_cons.mp opens
    exact ih others _ ⟨(own.after_ledger v).trans start.1, start.2.trans (own.idle v)⟩

theorem placed (opened : Opened name s t) :
    t.ledger.jobs = s.ledger.jobs ++ [{ name := name }] := by
  rw [opened.keeps.1]
  rfl

theorem skip (opened : Opened name s t) :
    (Deed.skip.after t).ledger.jobs =
        s.ledger.jobs ++ [JobResult.setStatus .skipped { name := name }] ∧
      Idle s (Deed.skip.after t) := by
  refine ⟨congrArg Ledger.jobs (Ledger.updateLast_eq opened.placed _), opened.keeps.2.trans ?_⟩
  exact ⟨⟨[], rfl, List.forall_mem_nil _⟩, rfl, rfl, rfl, rfl⟩

end Opened

/-- What is left of a session in which the user quits when asked about an instance. -/
def refusal (title : String) (s : Session) : Session :=
  Deed.all [.ask (jobQuestion title), .log .info "Quitting workflow execution", .skip] s

theorem Opened.refusal (opened : Opened name s u) (title : String) :
    ∃ v, Opened name s v ∧ refusal title u = Deed.skip.after v := by
  refine ⟨Deed.all [.ask (jobQuestion title), .log .info "Quitting workflow execution"] u, ?_, rfl⟩
  have asked : Opened name s ((Deed.ask (jobQuestion title)).after u) :=
    opened.deed (show Deed.Opens (.ask _) from .inr ⟨title, rfl⟩)
  exact asked.deed (Deed.inquires_info _).opens

inductive Opening (site : Site) (definition : Mapping) (s : Session) :
    Except Fault Unit → Session → Prop where
  | unnamed {u : Unfit} (untold : displayName site.job site.matrix = .error u) :
      Opening site definition s (.error (.unfit u)) s
  | broken {name : Scalar} {fault : Fault} {t : Session}
      (named : displayName site.job site.matrix = .ok name) (opened : Opened name s t) :
      Opening site definition s (.error fault) t
  /-- The user does not want it to run, or its condition does not hold. -/
  | skipped {name : Scalar} {t : Session}
      (named : displayName site.job site.matrix = .ok name) (opened : Opened name s t) :
      Opening site definition s (.ok ()) (Deed.skip.after t)
  | refused {name : Scalar} {title : String} {u t : Session}
      (named : displayName site.job site.matrix = .ok name) (opened : Opened name s u)
      (said : Step.reply (jobQuestion title) u = .quit) (left : t = refusal title u) :
      Opening site definition s (.error .quit) t
  | performed {name : Scalar} {title : String} {result : Except Fault Unit} {u t : Session}
      (named : displayName site.job site.matrix = .ok name) (opened : Opened name s u)
      (ran : (perform site definition title).perform u = (result, t)) :
      Opening site definition s result t

theorem opened_of_confirmed {title : String} {agreed : Except Fault Bool}
    (opened : Opened name s u) (confirms : (confirmed title).perform u = (agreed, t)) :
    (∃ b, agreed = .ok b) ∧ Opened name s t ∨
      agreed = .error .quit ∧ Step.reply (jobQuestion title) u = .quit ∧ t = refusal title u := by
  have asked : Opened name s ((Deed.ask (jobQuestion title)).after u) :=
    opened.deed (show Deed.Opens (.ask _) from .inr ⟨title, rfl⟩)
  cases answered_of_perform confirms with
  | unasked => exact .inl ⟨⟨_, rfl⟩, opened⟩
  | yes => exact .inl ⟨⟨_, rfl⟩, asked⟩
  | all =>
    have allowed := asked.deed (show Deed.Opens .allowJobs from trivial)
    exact .inl ⟨⟨_, rfl⟩, allowed.deed (Deed.inquires_info _).opens⟩
  | no => exact .inl ⟨⟨_, rfl⟩, asked.deed (Deed.inquires_info _).opens⟩
  | quit said => exact .inr ⟨rfl, said, rfl⟩

theorem opening_of_runInstance
    (performed : (runInstance site definition).perform s = (result, t)) :
    Opening site definition s result t := by
  unfold runInstance at performed
  rcases perform_fit_cases performed with ⟨u, untold, rfl, rfl⟩ | ⟨name, named, further⟩
  · exact .unnamed untold
  rw [perform_bind_ok (perform_modifyLedger ..)] at further
  have opened : Opened name s _ := .start name s
  generalize { s with ledger := s.ledger.start name } = v at further opened
  -- A play that finds a value leaves an instance open, and a fault of it ends the instance.
  have finds {α : Type} {play : Play α} {next : α → Play Unit} {u : Session}
      (opened : Opened name s u) (does : Does Deed.Inquires play)
      (performed : (play >>= next).perform u = (result, t))
      (rest : ∀ a w, Opened name s w → (next a).perform w = (result, t) →
        Opening site definition s result t) : Opening site definition s result t := by
    rcases perform_bind_cases performed with ⟨fault, failed, rfl⟩ | ⟨a, w, found, further⟩
    · exact .broken named (opened.inquires does failed)
    · exact rest a w (opened.inquires does found) further
  refine finds opened (.fit _) further fun title w opened further => ?_
  refine finds opened (info_consults _).inquires further fun _ w opened further => ?_
  extract_lets stated condition entered shown at further
  have enters {u : Session} (opened : Opened name s u)
      (performed : (entered ()).perform u = (result, t)) :
      Opening site definition s result t := by
    rcases perform_bind_cases performed with ⟨fault, failed, rfl⟩ | ⟨agreed, w, confirms, further⟩
    · rcases opened_of_confirmed opened failed with ⟨⟨b, same⟩, -⟩ | ⟨same, said, left⟩
      · cases same
      · cases same
        exact .refused named opened said left
    rcases opened_of_confirmed opened confirms with ⟨-, opened⟩ | ⟨same, -⟩
    · cases agreed with
      | false =>
        cases further
        exact .skipped named opened
      | true =>
        refine finds opened (Condition.holds_inquires ..) further fun holds x opened further => ?_
        cases holds with
        | true => exact .performed named opened further
        | false =>
          refine finds opened (.fit _) further fun text y opened further => ?_
          refine finds opened (info_consults _).inquires further fun _ z opened further => ?_
          cases further
          exact .skipped named opened
    · cases same
  have shows {u : Session} (opened : Opened name s u)
      (performed : (shown ()).perform u = (result, t)) :
      Opening site definition s result t := by
    dsimp only [shown] at performed
    split at performed
    · refine finds opened (.fit _) performed fun text w opened further => ?_
      exact finds opened (info_consults _).inquires further fun _ x opened => enters opened
    · exact enters opened performed
  split at further
  · refine finds opened (.fit _) further fun text w opened further => ?_
    exact finds opened (info_consults _).inquires further fun _ x opened => shows opened
  · exact shows opened further

end Job
end Rehearsal
