import Rehearsal.Proofs.Play.Yields
import Rehearsal.Proofs.Variable.Known

/-! Every prompt asks something, so an expression that comes to a value without a question had that
value before: it was known (`asked_of_unknown`). Hence a text that is filled without a question
leaves all that is known as it is: `sameKnown_of_fill`. -/

namespace Rehearsal

open Play

variable {workflow : Mapping} {expression value : String} {s t u : Session}

/-- That a play puts a question to the user. -/
structure Asks {α : Type} (play : Play α) : Prop where
  longer : ∀ s, s.questions.length < (play.perform s).2.questions.length

namespace Asks

variable {α β : Type}

theorem ask (question : Question) : Asks (Play.ask question) := by
  refine ⟨fun s => ?_⟩
  simp [Session.questions, Event.question?]

theorem length_le {play : Play α} (does : Does Deed.Poses play) (s : Session) :
    s.questions.length ≤ (play.perform s).2.questions.length := by
  obtain ⟨asked, same⟩ := does.questions_append (Prod.eta (play.perform s)).symm
  rw [same, List.length_append]
  exact Nat.le_add_right ..

theorem bind {play : Play α} {next : α → Play β} (asks : Asks play)
    (does : ∀ a, Does Deed.Poses (next a)) : Asks (play >>= next) := by
  constructor
  intro s
  have first := asks.longer s
  rw [perform_bind]
  cases performed : play.perform s with
  | mk result t =>
    rw [performed] at first
    cases result with
    | error fault => exact first
    | ok a => exact Nat.lt_of_lt_of_le first (length_le (does a) t)

theorem after {play : Play α} {next : α → Play β} (does : Does Deed.Poses play)
    (ends : Yields (fun _ => True) (fun _ => False) (fun _ => True) play)
    (asks : ∀ a, Asks (next a)) : Asks (play >>= next) := by
  constructor
  intro s
  have first := length_le does s
  obtain ⟨-, ended⟩ := ends.outcome s trivial
  rw [perform_bind]
  cases performed : play.perform s with
  | mk result t =>
    rw [performed] at first ended
    cases result with
    | error fault => exact ended.elim
    | ok a => exact Nat.lt_of_le_of_lt first ((asks a).longer t)

end Asks

/-! ### Prompts -/

theorem chooseWithin_asks (options : List String) (tries : Nat) :
    Asks (chooseWithin options (tries + 1)) := by
  refine .bind (.ask _) fun answer => .bind (.adopt _) fun chosen => ?_
  cases chosen with
  | some option => exact .pure option
  | none => exact .bind (.echo trivial) fun _ => chooseWithin_poses ..

theorem choose_asks (text : String) (options : List String) : Asks (choose text options) := by
  have shows (text : String) :
      Yields (fun _ => True) (fun _ => False) (fun _ => True) (echo text) :=
    .of_perform fun _ _ => ⟨_, _, rfl, trivial, trivial⟩
  refine .after (.echo trivial) (shows text) fun _ =>
    .after (.forIn fun _ _ => ?_) (.forIn fun _ _ => ?_) fun _ =>
      .after .get .get fun _ => chooseWithin_asks ..
  · exact .bind (.echo trivial) fun _ => .pure _
  · exact .bind (shows _) fun _ _ => .pure trivial

theorem Prompt.asks (p : Prompt) : Asks p.play := by
  cases p with
  | menu text options => exact choose_asks text options
  | entry text default =>
    exact .bind (.ask _) fun _ => .pure _
  | secret text => exact .ask _

/-! ### Resolving without a question -/

theorem prompt?_of_unknown {source : Source} (unknown : source.known? workflow s.context = none)
    (other : ∀ inner, source ≠ .json inner)
    (given : (Resolve.fromSource workflow expression source).perform s = (.ok value, t)) :
    ∃ p, source.prompt? workflow expression s.context = some p := by
  cases source with
  | environment name =>
    rw [Source.known?] at unknown
    rw [Resolve.fromSource] at given
    cases searched : environmentValue? workflow name with
    | error fault =>
      rw [searched] at given
      cases given
    | ok found =>
      rw [searched] at given unknown
      cases found with
      | none => exact ⟨_, by rw [Source.prompt?, searched]⟩
      | some v =>
        dsimp only at unknown
        have fitted : ((fit v.expressionText : Play String) >>=
            Resolve.announced expression).perform s = (.ok value, t) := given
        obtain ⟨text, u, told, -⟩ := perform_bind_eq_ok fitted
        rw [perform_fit] at told
        cases written : v.expressionText with
        | ok text =>
          rw [written] at unknown
          cases unknown
        | error flaw =>
          rw [written] at told
          cases told
  | output job name =>
    have absent : s.context.jobOutput? (.str job) name = none := unknown
    exact ⟨_, by rw [Source.prompt?, absent]⟩
  | json inner => exact absurd rfl (other inner)
  | _ => exact ⟨_, rfl⟩

theorem asked_of_unknown {expression value : String} {t : Session}
    (unknown : known? workflow s.context expression = none)
    (performed : (resolve workflow expression).perform s = (.ok value, t)) :
    t.questions ≠ s.questions := by
  rw [perform_resolve_of_fresh (fresh_of_unknown unknown)] at performed
  obtain ⟨own, u, given, kept⟩ := perform_bind_eq_ok performed
  cases kept
  show u.questions ≠ s.questions
  unfold found at given
  split at given
  · next inner json =>
    have shorter := Source.length_lt_of_json json
    obtain ⟨text, v, resolved, normalized⟩ := perform_bind_eq_ok given
    rw [(normalizeJson_tells ..).questions_eq normalized]
    exact asked_of_unknown (inside_of_unknown unknown json) resolved
  · next other =>
    rw [known?_of_other (fresh_of_unknown unknown) other] at unknown
    obtain ⟨p, prompts⟩ := prompt?_of_unknown unknown other given
    obtain ⟨next, makes⟩ := makes_of_prompt? prompts
    have asks : Asks (p.play >>= next) := p.asks.bind fun value => (makes.tells value).poses
    have longer := asks.longer s
    rw [← makes.same, given] at longer
    exact fun same => Nat.lt_irrefl _ (same ▸ longer)
termination_by expression.length
decreasing_by simpa using shorter

/-! ### Filling a text without a question -/

theorem Deed.after_answers (d : Deed) (s : Session) (other : d.questions = []) :
    (d.after s).answers = s.answers := by
  cases d with
  | ask question => cases other
  | _ => simp [after, play, Play.echo, Play.perform_discard, Job.skip, Job.failLast]

theorem Does.answers_eq {α : Type} {Kind : Deed → Prop} {play : Play α} {result : Except Fault α}
    (does : Does Kind play) (performed : play.perform s = (result, t))
    (unasked : t.questions = s.questions) : t.answers = s.answers := by
  obtain ⟨deeds, -, same⟩ := does.deeds s
  rw [performed] at same
  obtain rfl : t = _ := same
  rw [Deed.all_questions, List.append_right_eq_self, List.flatMap_eq_nil_iff] at unasked
  exact Deed.all_same (·.answers) (fun d u none => d.after_answers u none) unasked s

theorem Does.sameKnown {α : Type} {play : Play α} {result : Except Fault α}
    (does : Does Deed.Poses play) (performed : play.perform s = (result, t))
    (unasked : t.questions = s.questions) : s.SameKnown workflow (fun _ => True) t :=
  .of_resolved (does.inquires.sameOutputs performed) (does.answers_eq performed unasked)
    (does.resolved_eq performed)

theorem resolveStepOutput_poses (job : Scalar) (expression : String) :
    Does Deed.Poses (resolveStepOutput job expression) := by
  refine .bind .get fun s => ?_
  have asked : Does Deed.Poses (freeText (stepOutputText expression) "output-value") :=
    freeText_poses _ (isConfirmation_quoted _)
  dsimp only
  split
  · split
    · exact .pure _
    · exact asked
  · exact asked

theorem substitute_cases (scope : Scope) (expression : String) :
    Does Deed.Poses (substitute scope expression) ∨
      substitute scope expression = resolve scope.workflow expression := by
  unfold substitute
  split
  · exact .inl (.bind (.fit _) fun _ => announced_poses ..)
  · split
    · refine .inl (.bind (resolveStepOutput_poses ..) fun value => ?_)
      dsimp only
      split
      · exact .bind (info_tells _).poses fun _ => .pure _
      · exact .pure _
    · exact .inr rfl

theorem sameKnown_of_substitute {scope : Scope}
    (performed : (substitute scope expression).perform s = (.ok value, t))
    (unasked : t.questions = s.questions) : s.SameKnown scope.workflow (fun _ => True) t := by
  rcases substitute_cases scope expression with poses | resolves
  · exact poses.sameKnown performed unasked
  · rw [resolves] at performed
    cases known : known? scope.workflow s.context expression with
    | none => exact absurd unasked (asked_of_unknown known performed)
    | some own =>
      obtain ⟨u, resolved, same⟩ := resolve_of_known known
      rw [resolved] at performed
      cases performed
      exact same

theorem unasked_of_bind {s t u : Session} {first second : List Question}
    (before : t.questions = s.questions ++ first) (after : u.questions = t.questions ++ second)
    (unasked : u.questions = s.questions) :
    t.questions = s.questions ∧ u.questions = t.questions := by
  rw [after, before, List.append_assoc, List.append_right_eq_self, List.append_eq_nil_iff]
    at unasked
  obtain ⟨rfl, rfl⟩ := unasked
  exact ⟨before.trans (List.append_nil _), after.trans (List.append_nil _)⟩

theorem sameKnown_of_fillWith {scope : Scope} {step : String} {expressions : List String}
    {text written : List Char}
    (performed : (fillWith scope step expressions text).perform s = (.ok written, t))
    (unasked : t.questions = s.questions) : s.SameKnown scope.workflow (fun _ => True) t := by
  induction expressions generalizing s text with
  | nil =>
    cases performed
    exact .of_noted (.refl _)
  | cons expression rest ih =>
    obtain ⟨value, u, substituted, further⟩ := perform_bind_eq_ok performed
    obtain ⟨⟨⟩, v, told, more⟩ := perform_bind_eq_ok further
    obtain ⟨w, logged, noted⟩ := Session.Noted.log .debug
      ("[" ++ step ++ "] substituting " ++ expression) u
    obtain rfl : v = w := congrArg Prod.snd (told.symm.trans logged)
    have finds : Consults Deed.Inquires (fun _ => True) (substitute scope expression) :=
      substitute_consults scope trivial
    have fills (text : List Char) :
        Consults Deed.Inquires (fun _ => True) (fillWith scope step rest text) :=
      fillWith_consults scope step text fun _ _ => trivial
    obtain ⟨first, before⟩ := finds.inquires.questions_append substituted
    obtain ⟨second, after⟩ := (fills _).inquires.questions_append more
    rw [noted.questions] at after
    obtain ⟨quiet, silent⟩ := unasked_of_bind before after unasked
    have left := sameKnown_of_substitute substituted quiet
    exact (left.trans (.of_noted noted)).trans (ih more (silent.trans noted.questions.symm))

theorem sameKnown_of_fill {scope : Scope} {step text written : String}
    (performed : (fill scope step text).perform s = (.ok written, t))
    (unasked : t.questions = s.questions) : s.SameKnown scope.workflow (fun _ => True) t := by
  obtain ⟨filled, u, given, last⟩ := perform_bind_eq_ok performed
  cases last
  exact sameKnown_of_fillWith given unasked

end Rehearsal
