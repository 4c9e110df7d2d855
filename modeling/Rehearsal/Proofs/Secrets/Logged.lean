import Rehearsal.Proofs.Play.Aside
import Rehearsal.Proofs.Run.Memory
import Rehearsal.Proofs.Secrets.Masked
import Rehearsal.Proofs.Variable.Decoded

/-! A value is registered as a secret before anything is logged of it, and no expression keeps one
that is not (`Session.Guarded`). So masking keeps it out of the log, where it is resolved and in the
commands that take it: `secrets_stay_out_of_the_log`. The compact JSON of a secret is no secret, and
it is logged as it is unless a secret stands in it: `normalized_secret_is_logged`. -/

namespace Rehearsal

open Play Expression

/-- That an event is a log record with a text in it. -/
def Event.Shows (text : String) : Event → Prop
  | log _ message => text.toList <:+: message.toList
  | _ => False

/-- That the log records of a session which an earlier one does not have are without a text. -/
def Session.Conceals (s t : Session) (text : String) : Prop :=
  ∃ new, t.trace = new ++ s.trace ∧ ∀ event ∈ new, ¬event.Shows text

/-- That a secret stands in a text. -/
def Secrets.Covers (s : Secrets) (text : String) : Prop :=
  ∃ secret ∈ s.values, secret ≠ "" ∧ secret.toList <:+: text.toList

namespace Session.Conceals

variable {s t u : Session} {text : String}

theorem of_trace (same : t.trace = s.trace) : s.Conceals t text := ⟨[], same, nofun⟩

theorem trans (first : s.Conceals t text) (rest : t.Conceals u text) : s.Conceals u text := by
  obtain ⟨new, trace, own⟩ := first
  obtain ⟨more, traces, others⟩ := rest
  refine ⟨more ++ new, by rw [traces, trace, List.append_assoc], ?_⟩
  exact List.forall_mem_append.mpr ⟨others, own⟩

end Session.Conceals

/-! ### Masked records -/

namespace Secrets

variable {s : Secrets} {text : String}

theorem Covers.mono {t : Secrets} (covers : s.Covers text) (more : s.values ⊆ t.values) :
    t.Covers text := by
  obtain ⟨secret, member, own⟩ := covers
  exact ⟨secret, more member, own⟩

theorem covers_self (member : text ∈ s.values) (nonempty : text ≠ "") : s.Covers text :=
  ⟨text, member, nonempty, List.infix_rfl⟩

theorem Covers.not_isInfix_mask (covers : s.Covers text) (plain : '*' ∉ text.toList)
    (message : String) : ¬text.toList <:+: (s.mask message).toList := by
  obtain ⟨secret, member, nonempty, inside⟩ := covers
  intro shown
  exact Secrets.not_isInfix_mask member (fun star => plain (inside.subset star)) nonempty message
    (inside.trans shown)

end Secrets

theorem Deed.secrets_subset (d : Deed) (s : Session) :
    s.secrets.values ⊆ (d.after s).secrets.values := by
  cases d with
  | register value =>
    intro secret member
    exact Secrets.mem_register.mpr (.inl member)
  | _ => simp [after, play, Play.echo, Play.perform_discard, Job.skip, Job.failLast]

/-- That a session masks its log and has a secret that stands in a text. -/
structure Session.Hides (s : Session) (text : String) : Prop where
  masked : s.logging.masked = true
  covers : s.secrets.Covers text

variable {s t u : Session} {text : String}

theorem Session.Hides.after (hides : s.Hides text) (d : Deed) : (d.after s).Hides text where
  masked := by rw [d.after_logging]; exact hides.masked
  covers := hides.covers.mono (d.secrets_subset s)

theorem Session.Hides.conceals (hides : s.Hides text) (plain : '*' ∉ text.toList) (d : Deed) :
    s.Conceals (d.after s) text := by
  refine ⟨d.events s, d.after_trace s, ?_⟩
  intro event member shows
  cases event with
  | log level message =>
    cases d with
    | log own written =>
      simp only [Deed.events, logged, hides.masked] at member
      split at member
      · cases List.mem_singleton.mp member
        exact hides.covers.not_isInfix_mask plain written shows
      · cases member
    | _ => simp [Deed.events] at member
  | _ => exact shows

theorem Does.conceals {α : Type} {Kind : Deed → Prop} {play : Play α} (does : Does Kind play)
    (plain : '*' ∉ text.toList) (hides : s.Hides text) :
    s.Conceals (play.perform s).2 text := by
  obtain ⟨deeds, -, same⟩ := does.deeds s
  rw [same]
  clear same
  induction deeds generalizing s with
  | nil => exact .of_trace rfl
  | cons d deeds ih => exact (hides.conceals plain d).trans (ih (hides.after d))

/-! ### Kept values are registered -/

/-- That a session masks its log, and has registered the secrets that are kept as values. -/
structure Session.Guarded (s : Session) : Prop where
  masked : s.logging.masked = true
  registered : ∀ expression name value, Source.of expression = .secret name →
    s.kept? expression = some value → value ≠ "" → value ∈ s.secrets.values

namespace Session.Guarded

theorem after (guarded : s.Guarded) {d : Deed}
    (same : (d.after s).context.resolved = s.context.resolved) : (d.after s).Guarded where
  masked := by rw [d.after_logging]; exact guarded.masked
  registered expression name value own kept nonempty := by
    rw [kept?, same] at kept
    exact d.secrets_subset s (guarded.registered expression name value own kept nonempty)

theorem of_does {α : Type} {play : Play α} {result : Except Fault α} (guarded : s.Guarded)
    (does : Does Deed.Poses play) (performed : play.perform s = (result, t)) : t.Guarded := by
  obtain ⟨deeds, poses, same⟩ := does.deeds s
  rw [performed] at same
  dsimp only at same
  subst same
  clear performed
  induction deeds generalizing s with
  | nil => exact guarded
  | cons d deeds ih =>
    obtain ⟨first, others⟩ := List.forall_mem_cons.mp poses
    exact ih (guarded.after (first.after_resolved s)) others

theorem remember {expression value : String} (guarded : s.Guarded)
    (own : ∀ name, Source.of expression = .secret name → value ≠ "" → value ∈ s.secrets.values) :
    Guarded { s with context := s.context.remember expression value } where
  masked := guarded.masked
  registered other name kept source found nonempty := by
    rw [kept?_remember] at found
    split at found
    · next same =>
      cases found
      exact own name (same ▸ source) nonempty
    · exact guarded.registered other name kept source found nonempty

end Session.Guarded

variable {workflow : Mapping} {expression name value : String}

theorem registered_of_fromSource (text : String)
    (given : (Resolve.fromSource workflow expression (.secret name)).perform s = (.ok value, t)) :
    ∃ u, s.Conceals u text ∧ u.logging = s.logging ∧ (value ≠ "" → value ∈ u.secrets.values) ∧
      t = (Deed.log .info ("Resolved " ++ expression ++ " = \"***\"")).after u := by
  let question : Question := ⟨"Enter value for secret '" ++ name ++ "'", "", true⟩
  obtain ⟨typed, asked, answered, given⟩ := perform_bind_eq_ok given
  have asks : (.ok (answer question s), { s with
      answers := (s.answers.next question.text).2
      trace := .ask question (answer question s) :: s.trace }) = (Except.ok typed, asked) :=
    (perform_ask question s).symm.trans answered
  obtain ⟨own, rfl⟩ := Prod.mk.inj asks
  obtain rfl := Except.ok.inj own
  rw [perform_bind_ok (perform_modify _ _), perform_bind_ok (Deed.perform_info_eq_after _ _),
    perform_pure] at given
  obtain ⟨own, rfl⟩ := Prod.mk.inj given
  obtain rfl := Except.ok.inj own
  refine ⟨_, ?_, ?_, ?_, rfl⟩
  · exact ⟨[.ask question (answer question s)], rfl, List.forall_mem_singleton.mpr id⟩
  · rfl
  · exact fun nonempty => Secrets.mem_register.mpr (.inr ⟨rfl, nonempty⟩)

/-! ### The expressions of secrets -/

theorem Source.of_secret (name : String) : Source.of ("secrets." ++ name) = .secret name := by
  have head : ("secrets." ++ name).toList.head? = some 's' := by simp
  have menus := find?_menus head (by decide)
  have start : Source.ofStart? ("secrets." ++ name) = some (.secret name) := by
    simp [Source.ofStart?, menus, Text.rest?, Text.after?]
  rw [Source.of, start]

/-- What is read as JSON is a secret, though not of this name if the name has a parenthesis or ends
in blanks. -/
theorem Source.of_json_secret (name : String) :
    ∃ inner other, Source.of ("fromJSON(secrets." ++ name ++ ")") = .json inner ∧
      Source.of (String.ofList inner) = .secret other := by
  let rest := name.toList.takeWhile (· ≠ ')')
  have text : "fromJSON(secrets." ++ name ++ ")" = Reference.decoded ("secrets." ++ name) := by
    apply String.toList_inj.mp
    simp [Reference.decoded]
  have body : ("secrets." ++ name).toList.takeWhile (· ≠ ')') = "secrets.".toList ++ rest := by
    rw [String.toList_append]
    exact List.takeWhile_append_of_pos (List.all_eq_true.mp (by decide))
  have trimmed : Text.trim ("secrets.".toList ++ rest) =
      "secrets.".toList ++ Text.trimRight rest := by
    rw [Text.trim, Text.trimLeft_eq_self (by simp [Text.isBlank]),
      Text.trimRight_append (by simp [Text.isBlank])]
  refine ⟨_, String.ofList (Text.trimRight rest), by rw [text, Source.of_decoded (by simp)], ?_⟩
  rw [body, trimmed, String.ofList_append, String.ofList_toList]
  exact of_secret _

/-! ### Resolving a secret -/

theorem normalizeJson_logs (inner text : String) :
    Does (fun d => ∃ message, d = .log .info message) (Resolve.normalizeJson inner text) := by
  unfold Resolve.normalizeJson
  split
  · exact .bind (.log ⟨_, rfl⟩) fun _ => .pure _
  · exact .bind (.fit _) fun _ => .bind (.log ⟨_, rfl⟩) fun _ => .pure _

namespace Session.Guarded

theorem resolve {expression : String} {t : Session} (guarded : s.Guarded)
    {result : Except Fault String}
    (performed : (Rehearsal.resolve workflow expression).perform s = (result, t)) :
    t.Guarded := by
  have during {r : Except Fault String} {u : Session}
      (given : (found workflow expression).perform s = (r, u)) : u.Guarded ∧
        ∀ name value, Source.of expression = .secret name → r = .ok value → value ≠ "" →
          value ∈ u.secrets.values := by
    unfold found at given
    split at given
    · next inner own =>
      refine ⟨?_, fun name value other => by rw [own] at other; cases other⟩
      have shorter := Source.length_lt_of_json own
      rcases perform_bind_cases given with ⟨fault, failed, -⟩ | ⟨text, v, resolved, further⟩
      · exact guarded.resolve failed
      · exact (guarded.resolve resolved).of_does (normalizeJson_tells ..).poses further
    · refine ⟨guarded.of_does (fromSource_poses _ _ rfl) given, ?_⟩
      rintro name value own rfl nonempty
      rw [own] at given
      obtain ⟨v, -, -, registered, rfl⟩ := registered_of_fromSource "" given
      exact Deed.secrets_subset _ v (registered nonempty)
  cases resolution_of_perform performed with
  | kept kept => exact guarded
  | failed _ failed => exact (during failed).1
  | fresh _ given =>
    obtain ⟨after, registered⟩ := during given
    exact after.remember fun name own => registered name _ own rfl
termination_by expression.length
decreasing_by all_goals simpa using shorter

theorem all {acts : List Act} (own : ∀ a ∈ acts, Run.Operation.Free a) (guarded : s.Guarded) :
    (Act.all acts s).Guarded := by
  induction acts generalizing s with
  | nil => exact guarded
  | cons a acts ih =>
    obtain ⟨first, others⟩ := List.forall_mem_cons.mp own
    refine ih others ?_
    cases a with
    | deed d => exact guarded.after (first.2.after_resolved s)
    | resolve workflow expression => exact guarded.resolve rfl

end Session.Guarded

/-- No log record that is written while a secret is resolved shows a text that is covered
afterwards. -/
theorem conceals_of_secret (own : Source.of expression = .secret name)
    (masked : s.logging.masked = true) (plain : '*' ∉ text.toList)
    (performed : (resolve workflow expression).perform s = (.ok value, t))
    (covers : t.secrets.Covers text) : s.Conceals t text := by
  cases resolution_of_perform performed with
  | kept _ => exact .of_trace rfl
  | fresh _ given =>
    rw [found, own] at given
    obtain ⟨u, conceals, logging, -, rfl⟩ := registered_of_fromSource text given
    have hides : u.Hides text := by
      refine ⟨logging ▸ masked, ?_⟩
      rw [Deed.after_log] at covers
      exact covers
    exact (conceals.trans (hides.conceals plain _)).trans (.of_trace rfl)

theorem conceals_of_json {inner : List Char} (json : Source.of expression = .json inner)
    (own : Source.of (String.ofList inner) = .secret name)
    (masked : s.logging.masked = true) (plain : '*' ∉ text.toList)
    (performed : (resolve workflow expression).perform s = (.ok value, t))
    (covers : t.secrets.Covers text) : s.Conceals t text := by
  cases resolution_of_perform performed with
  | kept _ => exact .of_trace rfl
  | @fresh _ u _ given =>
    rw [found, json] at given
    obtain ⟨secret, v, resolved, further⟩ := perform_bind_eq_ok given
    have logs := normalizeJson_logs (String.ofList inner) secret
    have secrets := logs.keeps (·.secrets) (by rintro _ u ⟨message, rfl⟩; rw [Deed.after_log]) v
    have logging := (resolve_inquires workflow (String.ofList inner)).keeps (·.logging)
      (fun d u _ => d.after_logging u) s
    rw [further] at secrets
    rw [resolved] at logging
    have covered : v.secrets.Covers text := by
      dsimp only at secrets
      rw [← secrets]
      exact covers
    have first := conceals_of_secret own masked plain resolved covered
    have rest := logs.conceals plain ⟨logging ▸ masked, covered⟩
    rw [further] at rest
    exact (first.trans rest).trans (.of_trace rfl)

/-! ### Commands that take a secret -/

theorem recalled_of_consults {α : Type} {Kind : Deed → Prop} {Allowed : String → Prop}
    {play : Play α} {result : Except Fault α} (consults : Consults Kind Allowed play)
    (performed : play.perform s = (result, t)) : s.Recalled t := by
  obtain ⟨acts, own, same⟩ := consults.steps s
  rw [performed] at same
  dsimp only at same
  rw [same]
  exact Act.all_recalled own s

theorem Session.Guarded.of_consults {α : Type} {play : Play α} {result : Except Fault α}
    (guarded : s.Guarded) (consults : Consults (fun _ => True) (fun _ => True) play)
    (performed : play.perform s = (result, t)) : t.Guarded := by
  obtain ⟨acts, own, same⟩ := consults.steps s
  rw [performed] at same
  dsimp only at same
  rw [same]
  exact guarded.all own

theorem Session.Guarded.operations (guarded : s.Guarded) (operations : List Run.Operation) :
    (Run.Operation.all operations s).Guarded := by
  obtain ⟨acts, made⟩ := Run.exists_acts operations s
  rw [made.all]
  exact guarded.all made.own

theorem kept_of_fillWith {scope : Scope} {step : String} {expressions : List String}
    {written filled : List Char} (member : expression ∈ expressions)
    (free : scope.binding? expression = none)
    (other : Text.startsWith expression "steps." = false)
    (given : (fillWith scope step expressions written).perform s = (.ok filled, t)) :
    ∃ value, t.kept? expression = some value := by
  induction expressions generalizing s written with
  | nil => nomatch member
  | cons first rest ih =>
    obtain ⟨value, u, substituted, given⟩ := perform_bind_eq_ok given
    rcases List.mem_cons.mp member with rfl | later
    · simp only [substitute, free, other, Bool.false_and, Bool.false_eq_true, if_false]
        at substituted
      have consults (written : List Char) : Consults Deed.Inquires (fun _ => True) (do
          debug ("[" ++ step ++ "] substituting " ++ expression)
          fillWith scope step rest written) :=
        .bind (debug_consults _) fun _ => fillWith_consults scope step _ fun _ _ => trivial
      exact ⟨value, recalled_of_consults (consults _) given _ _ (kept_of_resolve substituted)⟩
    · obtain ⟨⟨⟩, v, told, given⟩ := perform_bind_eq_ok given
      exact ih later given

theorem kept_of_fillValue {scope : Scope} {step written filled : String} {command : Value}
    (told : command.expressionText = .ok written)
    (member : expression ∈ Placeholder.extract written)
    (free : scope.binding? expression = none)
    (other : Text.startsWith expression "steps." = false)
    (fills : (fillValue scope step command).perform s = (.ok filled, t)) :
    ∃ value, t.kept? expression = some value := by
  have given : (fill scope step written).perform s = (.ok filled, t) := by
    rw [fillValue, told] at fills
    exact fills
  obtain ⟨chars, u, own, last⟩ := perform_bind_eq_ok given
  obtain rfl : u = t := congrArg Prod.snd last
  exact kept_of_fillWith member free other own

def Step.carryOut (site : Site) (step : Value) (stepId directory text : String) :
    Play Outcome := do
  info ("Working directory: " ++ directory)
  if ← commandAllowed then
    let surroundings ← environment site step stepId
    let surroundings := Table.put Command.outputVariable Command.outputFile surroundings
    finish site stepId (← execute text directory surroundings)
  else
    info "Skipping command"
    return ⟨.skipped, false⟩

theorem Step.runCommand_eq (site : Site) (step command : Value) (stepId directory : String) :
    runCommand site step command stepId directory = (do
      let text ← fillValue site.scope stepId command
      if (← get).policy.dryRun then
        info ("[PREVIEW] Would execute: " ++ text ++ " (in " ++ directory ++ ")")
        return ⟨.success, false⟩
      else
        info ("Command: " ++ text)
        carryOut site step stepId directory text) := rfl

theorem Step.carryOut_does (site : Site) (step : Value) (stepId directory text : String) :
    Does (fun _ => True) (carryOut site step stepId directory text) := by
  have consults : Consults (Deed.OfStep site.job) (fun _ => True)
      (carryOut site step stepId directory text) := by
    refine .bind (info_consults _).inStep fun _ => .bind commandAllowed_consults fun allowed => ?_
    split
    · refine .bind (environment_consults (.all site) (.all step) _).inStep fun surroundings =>
        .bind ?_ fun _ => finish_consults ..
      exact .deed (.execute ..) (fun s => (perform_discard _ s).symm) trivial trivial
    · exact .bind (info_consults _).inStep fun _ => .pure _
  exact (consults.does fun _ inquires => inquires.works.ofStep).mono fun _ _ => trivial

section

variable {site : Step.Site} {step command : Value} {stepId directory filled : String}

theorem Step.runCommand_conceals
    (fills : (fillValue site.scope stepId command).perform s = (.ok filled, t))
    (hides : t.Hides text) (plain : '*' ∉ text.toList) :
    t.Conceals ((runCommand site step command stepId directory).perform s).2 text := by
  rw [runCommand_eq, perform_bind_ok fills]
  refine (show Does (fun _ => True) _ from ?_).conceals plain hides
  refine .bind .get fun u => ?_
  split
  · exact .bind (.log trivial) fun _ => .pure _
  · exact .bind (.log trivial) fun _ => carryOut_does ..

theorem Step.runCommand_logs
    (fills : (fillValue site.scope stepId command).perform s = (.ok filled, t))
    (real : t.policy.dryRun = false) (kept : t.logging.threshold.weight ≤ Level.info.weight)
    (masked : t.logging.masked = true) :
    .log .info (t.secrets.mask ("Command: " ++ filled)) ∈
      ((runCommand site step command stepId directory).perform s).2.since t := by
  let told := (Deed.log .info ("Command: " ++ filled)).after t
  have performed : ((runCommand site step command stepId directory).perform s).2 =
      ((carryOut site step stepId directory filled).perform told).2 := by
    rw [runCommand_eq, perform_bind_ok fills, perform_get_bind, real]
    exact congrArg Prod.snd (perform_bind_ok (Deed.perform_info_eq_after _ t))
  obtain ⟨deeds, -, same⟩ := (carryOut_does site step stepId directory filled).deeds told
  obtain ⟨new, trace, -⟩ := Deed.all_events deeds told
  have logged : told.trace = .log .info (t.secrets.mask ("Command: " ++ filled)) :: t.trace := by
    rw [Deed.after_trace, Deed.events, Play.logged, if_pos kept, masked]
    rfl
  have added : (Deed.all deeds told).trace =
      (new ++ [.log .info (t.secrets.mask ("Command: " ++ filled))]) ++ t.trace := by
    rw [trace, logged]
    simp
  rw [performed, same, Session.since_eq added]
  exact List.mem_append_right _ List.mem_cons_self

end

/-- **Secrets in the log.** After any operations of a run that began with no kept values and with a
masked log: a text without stars that an expression of a secret comes to, and that is the secret
itself or has a secret in it, is shown by no log record that is written while the expression is
resolved. If the expression stands in a command, it comes to a value that is kept, and such a text
is shown by no log record from then on, the one of the command included. -/
theorem secrets_stay_out_of_the_log (operations : List Run.Operation) {start : Session}
    (empty : start.context.resolved = []) (masked : start.logging.masked = true)
    {expression name text : String}
    (takes : expression = "secrets." ++ name ∨ expression = "fromJSON(secrets." ++ name ++ ")")
    (nonempty : text ≠ "") (plain : '*' ∉ text.toList) :
    let s := Run.Operation.all operations start
    (∀ workflow t, (resolve workflow expression).perform s = (.ok text, t) →
      expression = "secrets." ++ name ∨ t.secrets.Covers text → s.Conceals t text) ∧
    ∀ (site : Step.Site) (step command : Value) (stepId directory written filled : String) t,
      command.expressionText = .ok written → expression ∈ Placeholder.extract written →
      (fillValue site.scope stepId command).perform s = (.ok filled, t) →
      let done := ((Step.runCommand site step command stepId directory).perform s).2
      (∃ value, (resolve site.workflow expression).perform t = (.ok value, t)) ∧
      ((resolve site.workflow expression).perform t = (.ok text, t) →
        expression = "secrets." ++ name ∨ t.secrets.Covers text → t.Conceals done text) ∧
      (t.policy.dryRun = false → t.logging.threshold.weight ≤ Level.info.weight →
        .log .info (t.secrets.mask ("Command: " ++ filled)) ∈ done.since t) := by
  intro s
  have first : start.Guarded := by
    refine ⟨masked, fun expression name value _ kept _ => ?_⟩
    rw [Session.kept?, empty] at kept
    cases kept
  have guarded : s.Guarded := first.operations operations
  -- Where the expression is the secret itself, its value is registered.
  have covered {t : Session} (guarded : t.Guarded) (kept : t.kept? expression = some text)
      (holds : expression = "secrets." ++ name ∨ t.secrets.Covers text) :
      t.secrets.Covers text := by
    refine holds.elim (fun direct => ?_) id
    have own : Source.of expression = .secret name := direct ▸ Source.of_secret name
    exact Secrets.covers_self (guarded.registered _ _ _ own kept nonempty) nonempty
  constructor
  · intro workflow t performed holds
    have covers := covered (guarded.resolve performed) (kept_of_resolve performed) holds
    rcases takes with direct | json
    · have own : Source.of expression = .secret name := direct ▸ Source.of_secret name
      exact conceals_of_secret own guarded.masked plain performed covers
    · obtain ⟨inner, other, read, own⟩ := Source.of_json_secret name
      exact conceals_of_json (json ▸ read) own guarded.masked plain performed covers
  · intro site step command stepId directory written filled t told member fills done
    have after : t.Guarded := guarded.of_consults
      ((fillValue_consults site.scope stepId (.all command)).wider fun _ _ => trivial) fills
    have free : site.scope.binding? expression = none := by
      rcases takes with rfl | rfl <;> simp [Scope.binding?, Text.rest?, Text.after?]
    have other : Text.startsWith expression "steps." = false := by
      rcases takes with rfl | rfl <;> simp [Text.startsWith, Text.after?]
    obtain ⟨value, kept⟩ := kept_of_fillValue told member free other fills
    refine ⟨⟨value, perform_resolve_of_kept kept⟩, ?_, ?_⟩
    · intro performed holds
      have covers := covered after (kept_of_resolve performed) holds
      exact Step.runCommand_conceals fills ⟨after.masked, covers⟩ plain
    · intro real threshold
      exact Step.runCommand_logs fills real threshold after.masked

/-- A run whose log is masked, with the answer to the next question. -/
def maskedSession (answer : String) : Session where
  policy := { runAllCommands := true }
  answers := { texts := [answer] }
  logging := { masked := true }

/-- What a command does that takes a secret by way of its JSON. -/
def echoSecret : Play Step.Outcome :=
  Step.runCommand ⟨[], "/repo", .str "build", .null, [], []⟩ (.map [])
    (.str "echo $\x7b\x7b fromJSON(secrets.TOKEN) \x7d\x7d") "show" "/repo"

theorem secrets_stay_out_of_the_log_token :
    ∃ t, t.Conceals (echoSecret.perform (maskedSession "hunter2")).2 "hunter2" ∧
      .log .info (t.secrets.mask "Command: echo hunter2") ∈
        (echoSecret.perform (maskedSession "hunter2")).2.since t ∧
      t.secrets.mask "Command: echo hunter2" = "Command: echo ***" := by
  let site : Step.Site := ⟨[], "/repo", .str "build", .null, [], []⟩
  let command : Value := .str "echo $\x7b\x7b fromJSON(secrets.TOKEN) \x7d\x7d"
  let t := ((fillValue site.scope "show" command).perform (maskedSession "hunter2")).2
  have fills : (fillValue site.scope "show" command).perform (maskedSession "hunter2") =
      (.ok "echo hunter2", t) := perform_eq_of_toOption (by decide +kernel)
  have takes : "fromJSON(secrets.TOKEN)" = "fromJSON(secrets." ++ "TOKEN" ++ ")" := by decide
  have empty : (maskedSession "hunter2").context.resolved = [] := rfl
  have nonempty : "hunter2" ≠ "" := by decide
  have given := (secrets_stay_out_of_the_log [] empty rfl (.inr takes) nonempty (by decide)).2
    site (.map []) command "show" "/repo" _ _ t rfl (by decide +kernel) fills
  obtain ⟨-, conceals, logs⟩ := given
  have resolved : (resolve site.workflow "fromJSON(secrets.TOKEN)").perform t =
      (.ok "hunter2", t) := perform_resolve_of_kept (by decide +kernel)
  have covers : t.secrets.Covers "hunter2" :=
    Secrets.covers_self (by decide +kernel) (by decide)
  exact ⟨t, conceals resolved (.inr covers), logs (by decide +kernel) (by decide +kernel),
    by decide +kernel⟩

def Session.messages (s : Session) : List String :=
  s.trace.reverse.filterMap fun | .log _ message => some message | _ => none

/-- The compact JSON of a secret is not the secret, so it is in the log, where it is resolved and in
the command. -/
theorem normalized_secret_is_logged :
    let s := (echoSecret.perform (maskedSession "[1, 2]")).2
    ((resolve [] "fromJSON(secrets.TOKEN)").perform s).1.toOption = some "[1,2]" ∧
      s.messages = ["Resolved secrets.TOKEN = \"***\"", "Resolved fromJSON(secrets.TOKEN) = [1,2]",
        "Command: echo [1,2]", "Working directory: /repo", "Command completed successfully"] := by
  decide +kernel

end Rehearsal
