import Rehearsal.Proofs.Action.Registry
import Rehearsal.Run.Execute

/-! A mock is free to return anything and to fail in any way. The step records all outputs of a
mapping or none. It succeeds unless an entry of the mapping has no text or the mock ends more than
its step: `mocked_steps_end`. -/

namespace Rehearsal.Step

open Play

/-! ### Entries as texts -/

/-- That these are the entries of a mapping as texts. -/
def Rendered (entries : Mapping) (texts : List (String × String)) : Prop :=
  List.Forall₂ (fun entry text => entry.1.plain = .ok text.1 ∧ entry.2.expressionText = .ok text.2)
    entries texts

section

variable {entries : Mapping}

theorem mockOutputs_eq_ok_iff {texts : List (String × String)} :
    mockOutputs entries = .ok texts ↔ Rendered entries texts := by
  constructor
  · intro told
    induction entries generalizing texts with
    | nil =>
      cases told
      exact .nil
    | cons entry rest ih =>
      obtain ⟨key, value⟩ := entry
      rw [mockOutputs] at told
      obtain ⟨name, own, told⟩ := bind_eq_ok told
      obtain ⟨text, written, told⟩ := bind_eq_ok told
      obtain ⟨others, more, told⟩ := bind_eq_ok told
      cases told
      exact .cons ⟨own, written⟩ (ih more)
  · intro rendered
    induction rendered with
    | nil => rfl
    | cons own _ ih =>
      rw [mockOutputs, own.1, own.2, ih]
      rfl

/-- That an entry has no text: its key has none, or its key has one and its value has none. -/
inductive Untold (entry : Scalar × Value) (unfit : Unfit) : Prop where
  | key (none : entry.1.plain = .error unfit)
  | value {name : String} (own : entry.1.plain = .ok name)
      (none : entry.2.expressionText = .error unfit)

/-- That the entries of a mapping cannot be told, because of the first that has no text. -/
def Unrendered (entries : Mapping) (unfit : Unfit) : Prop :=
  ∃ before entry after texts, entries = before ++ entry :: after ∧ Rendered before texts ∧
    Untold entry unfit

theorem Unrendered.head {entry : Scalar × Value} {unfit : Unfit} (untold : Untold entry unfit)
    (after : Mapping) : Unrendered (entry :: after) unfit :=
  ⟨[], entry, after, [], rfl, .nil, untold⟩

theorem Unrendered.cons {entry : Scalar × Value} {name text : String} {unfit : Unfit}
    (own : entry.1.plain = .ok name) (told : entry.2.expressionText = .ok text)
    (rest : Unrendered entries unfit) : Unrendered (entry :: entries) unfit := by
  obtain ⟨before, flaw, after, texts, rfl, rendered, untold⟩ := rest
  exact ⟨entry :: before, flaw, after, (name, text) :: texts, rfl, .cons ⟨own, told⟩ rendered,
    untold⟩

theorem mockOutputs_eq_error_iff {unfit : Unfit} :
    mockOutputs entries = .error unfit ↔ Unrendered entries unfit := by
  constructor
  · intro failed
    induction entries with
    | nil => cases failed
    | cons entry rest ih =>
      obtain ⟨key, value⟩ := entry
      rw [mockOutputs] at failed
      cases own : key.plain with
      | error flaw =>
        rw [own] at failed
        cases failed
        exact .head (.key own) rest
      | ok name =>
        cases told : value.expressionText with
        | error flaw =>
          rw [own, told] at failed
          cases failed
          exact .head (.value own told) rest
        | ok text =>
          cases more : mockOutputs rest with
          | error flaw =>
            rw [own, told, more] at failed
            cases failed
            exact .cons own told (ih more)
          | ok others =>
            rw [own, told, more] at failed
            cases failed
  · rintro ⟨before, ⟨key, value⟩, after, texts, rfl, rendered, untold⟩
    induction rendered with
    | nil =>
      rw [List.nil_append, mockOutputs]
      cases untold with
      | key none =>
        rw [none]
        rfl
      | value own none =>
        rw [own, none]
        rfl
    | cons own _ ih =>
      rw [List.cons_append, mockOutputs, own.1, own.2, ih]
      rfl

end

/-- That a step gained outputs between two sessions, and that nothing else was recorded. Of outputs
with one name the last is kept, and it takes the place of one that was recorded before. -/
structure Gains (job : Scalar) (stepId : String) (texts : List (String × String))
    (s t : Session) : Prop where
  jobs : t.context.jobs = s.context.jobs
  own : ∀ other name, (job == other) = true → t.context.stepOutput? other stepId name =
    (Table.find? name texts.reverse).or (s.context.stepOutput? other stepId name)
  others : ∀ other id name, ¬((job == other) = true ∧ stepId = id) →
    t.context.stepOutput? other id name = s.context.stepOutput? other id name

variable {site : Site} {step : Value} {index : Nat} {stepId place action : String} {m : Mock}
  {s t u : Session}

theorem gains_of_records {job : Scalar} {texts : List (String × String)}
    (records : Records job stepId (Table.ofList texts) s t) : Gains job stepId texts s t where
  jobs := records.jobs
  own other name same := by
    rw [records.steps, Context.stepOutput?_recordStep, if_pos ⟨same, rfl⟩, Table.ofList_ofList,
      Table.find?_ofList_reverse]
  others other id name apart := by
    rw [records.steps, Context.stepOutput?_recordStep, if_neg apart]

/-! ### Replies -/

/-- How a step ends after the reply of its mock, and what it has recorded by then. -/
inductive MockEnds (job : Scalar) (stepId : String) (s t : Session) :
    Reply → Except Fault Outcome → Prop where
  | rendered {entries : Mapping} {texts : List (String × String)}
      (rendered : Rendered entries texts) (gains : Gains job stepId texts s t) :
      MockEnds job stepId s t (.ok (.map entries)) (.ok ⟨.success, false⟩)
  | unrendered {entries : Mapping} {unfit : Unfit} (unrendered : Unrendered entries unfit)
      (same : s.SameOutputs t) :
      MockEnds job stepId s t (.ok (.map entries)) (.error (.unfit unfit))
  | mapless {value : Value} (other : ∀ entries, value ≠ .map entries) (same : s.SameOutputs t) :
      MockEnds job stepId s t (.ok value) (.ok ⟨.success, false⟩)
  | failed {text : String} (same : s.SameOutputs t) :
      MockEnds job stepId s t (.error text) (.ok ⟨.success, false⟩)
  | escaped {e : Escape} (same : s.SameOutputs t) :
      MockEnds job stepId s t (.escape e) (.error (.escaped e))

/-- That a step goes on after a reply. -/
def Contained : Reply → Prop
  | .ok (.map entries) => ∃ texts, Rendered entries texts
  | .ok _ | .error _ => True
  | .escape _ => False

theorem MockEnds.success_iff {job : Scalar} {reply : Reply} {result : Except Fault Outcome}
    (ends : MockEnds job stepId s t reply result) :
    result = .ok ⟨.success, false⟩ ↔ Contained reply := by
  cases ends with
  | rendered rendered gains => exact iff_of_true rfl ⟨_, rendered⟩
  | unrendered unrendered same =>
    refine iff_of_false nofun fun ⟨texts, told⟩ => ?_
    have given := mockOutputs_eq_ok_iff.mpr told
    rw [mockOutputs_eq_error_iff.mpr unrendered] at given
    cases given
  | @mapless value other same =>
    refine iff_of_true rfl ?_
    cases value with
    | map entries => exact (other entries rfl).elim
    | _ => trivial
  | failed => exact iff_of_true rfl trivial
  | escaped => exact iff_of_false nofun not_false

/-! ### The call of a mock -/

section

variable {given : Table String String} {reply : Reply}
  (filled : (inputs site step stepId).perform s = (.ok given, u))
  (replies : m.respond u.registry.calls ⟨given, place, stepId, u.policy.dryRun⟩ = reply)

include filled replies

theorem exists_perform_runMock_of_rendered {entries : Mapping} {texts : List (String × String)}
    (mapping : reply = .ok (.map entries)) (rendered : Rendered entries texts) :
    ∃ t, (runMock site step stepId place action m).perform s = (.ok (), t) ∧
      Records site.job stepId (Table.ofList texts) u t := by
  let called := (Deed.call m ⟨given, place, stepId, u.policy.dryRun⟩).after u
  have told : (fit (mockOutputs entries)).perform called = (.ok texts, called) := by
    rw [mockOutputs_eq_ok_iff.mpr rendered]
    rfl
  obtain ⟨v, recorded, -⟩ := perform_recordOutputs site.job stepId (Table.ofList texts) called
  let ends (_ : Unit) : Play Unit := info ("Action " ++ action ++ " completed with mock")
  have performed :
      (recordOutputs site.job stepId (Table.ofList texts) >>= ends).perform called = (.ok (), _) :=
    (perform_bind_ok recorded).trans (Deed.perform_info_eq_after ..)
  refine ⟨_, ?_, .after (call_sameOutputs ..)
    (records_of_recordOutputs (log_prepares ..) performed)⟩
  rw [runMock, perform_bind_ok filled, perform_get_bind,
    perform_bind_ok (Deed.perform_call_eq_after ..), replies, mapping]
  exact (perform_bind_ok told).trans performed

theorem exists_perform_runMock_of_unrendered {entries : Mapping} {unfit : Unfit}
    (mapping : reply = .ok (.map entries)) (unrendered : Unrendered entries unfit) :
    ∃ t, (runMock site step stepId place action m).perform s = (.error (.unfit unfit), t) ∧
      u.SameOutputs t := by
  rw [runMock, perform_bind_ok filled, perform_get_bind,
    perform_bind_ok (Deed.perform_call_eq_after ..), replies, mapping]
  dsimp only
  rw [mockOutputs_eq_error_iff.mpr unrendered]
  exact ⟨_, rfl, call_sameOutputs ..⟩

theorem exists_perform_runMock_of_escape {e : Escape} (escapes : reply = .escape e) :
    ∃ t, (runMock site step stepId place action m).perform s = (.error (.escaped e), t) ∧
      u.SameOutputs t := by
  rw [runMock, perform_bind_ok filled, perform_get_bind,
    perform_bind_ok (Deed.perform_call_eq_after ..), replies, escapes]
  exact ⟨_, rfl, call_sameOutputs ..⟩

theorem exists_perform_runMock_of_warning (mapless : ∀ entries, reply ≠ .ok (.map entries))
    (contained : ∀ e, reply ≠ .escape e) :
    ∃ t, (runMock site step stepId place action m).perform s = (.ok (), t) ∧ u.SameOutputs t := by
  rw [runMock, perform_bind_ok filled, perform_get_bind,
    perform_bind_ok (Deed.perform_call_eq_after ..), replies]
  have warns (message : String) (v : Session) : ∃ t,
      (warning message).perform v = (.ok (), t) ∧ v.SameOutputs t :=
    ⟨_, perform_warning .., (Untouched.of_does (log_prepares ..) (perform_warning ..)).outputs⟩
  have called := call_sameOutputs m ⟨given, place, stepId, u.policy.dryRun⟩ u
  split
  · obtain ⟨t, warned, same⟩ := warns _ _
    exact ⟨t, warned, called.trans same⟩
  · next entries => exact (mapless entries rfl).elim
  · obtain ⟨t, warned, same⟩ := warns _ _
    exact ⟨t, warned, called.trans same⟩
  · next e => exact (contained e rfl).elim

theorem exists_mockEnds {first : Session} (before : first.SameOutputs u) :
    ∃ result v,
      (do
        runMock site step stepId place action m
        return (⟨.success, false⟩ : Outcome)).perform s = (result, v) ∧
      MockEnds site.job stepId first v reply result := by
  cases reply with
  | ok value =>
    by_cases mapping : ∃ entries, value = .map entries
    · obtain ⟨entries, rfl⟩ := mapping
      cases told : mockOutputs entries with
      | ok texts =>
        have rendered := mockOutputs_eq_ok_iff.mp told
        obtain ⟨v, ran, records⟩ := exists_perform_runMock_of_rendered filled replies rfl rendered
        have gains := gains_of_records (.after before records)
        exact ⟨_, v, perform_bind_ok ran, .rendered rendered gains⟩
      | error unfit =>
        have unrendered := mockOutputs_eq_error_iff.mp told
        obtain ⟨v, failed, same⟩ :=
          exists_perform_runMock_of_unrendered filled replies rfl unrendered
        exact ⟨_, v, perform_bind_error failed, .unrendered unrendered (before.trans same)⟩
    · have other (entries : Mapping) : value ≠ .map entries := fun same => mapping ⟨entries, same⟩
      obtain ⟨v, ran, same⟩ := exists_perform_runMock_of_warning filled replies
        (fun entries same => other entries (Reply.ok.inj same)) nofun
      exact ⟨_, v, perform_bind_ok ran, .mapless other (before.trans same)⟩
  | error text =>
    obtain ⟨v, ran, same⟩ := exists_perform_runMock_of_warning filled replies nofun nofun
    exact ⟨_, v, perform_bind_ok ran, .failed (before.trans same)⟩
  | escape e =>
    obtain ⟨v, failed, same⟩ := exists_perform_runMock_of_escape filled replies rfl
    exact ⟨_, v, perform_bind_error failed, .escaped (before.trans same)⟩

end

/-! ### Steps with a mock -/

/-- That a step comes to its mock: its condition holds, its directory is known, and there is a mock
for its action, which is neither a setup of Terraform nor a checkout. -/
inductive Mocked (site : Site) (step : Value) (index : Nat) (s : Session) :
    (stepId place action : String) → Mock → Session → Prop where
  | intro {title stepId place action : String} {condition uses : Value} {m : Mock}
      {decided placed got : Session}
      (titled : name step index = .ok title) (named : id step index = .ok stepId)
      (conditional : member "if" step = .ok condition)
      (holds : (Condition.holds ⟨site.workflow, .step site.job, site.matrix⟩ condition).perform
        ((Deed.log .info ("Step: " ++ title)).after s) = (.ok true, decided))
      (found : (directory site step stepId).perform decided = (.ok place, placed))
      (uncommanded : member "run" step = .ok .null)
      (used : member "uses" step = .ok uses) (present : uses.isPresent = true)
      (plain : uses.plain = .ok action) (unprepared : Action.isTerraformSetup action = false)
      (simulated : Action.isCheckout action = false)
      (known : (Registry.get action).perform
        ((Deed.log .info ("Running action: " ++ action)).after placed) = (.ok (some m), got)) :
      Mocked site step index s stepId place action m got

namespace Mocked

variable (mocked : Mocked site step index s stepId place action m t)

include mocked

theorem untouched : Untouched s t := by
  cases mocked with
  | intro titled named conditional holds found uncommanded used present plain unprepared simulated
      known =>
    have inquires {α : Type} {first : Play α} {result : Except Fault α} {u v : Session}
        (asks : Does Deed.Inquires first) (performed : first.perform u = (result, v)) :
        Untouched u v := .of_does (asks.mono fun _ => Deed.Inquires.prepares) performed
    have logs (message : String) (v : Session) : Untouched v ((Deed.log .info message).after v) :=
      .of_does (log_prepares ..) (Deed.perform_info_eq_after ..)
    have decides := inquires (Condition.holds_inquires ..) holds
    have places := inquires (directory_inquires ..) found
    have looks : Untouched _ t := .of_does (get_prepares _) known
    exact (logs ..).trans (decides.trans (places.trans ((logs ..).trans looks)))

theorem perform_run : (run site step index).perform s =
    (do
      runMock site step stepId place (Action.name action) m
      return (⟨.success, false⟩ : Outcome)).perform t := by
  cases mocked with
  | intro titled named conditional holds found uncommanded used present plain unprepared simulated
      known =>
    rw [run, titled, named, perform_bind_ok (perform_adopt ..), perform_bind_ok (perform_adopt ..),
      perform_bind_ok (Deed.perform_info_eq_after ..), conditional,
      perform_bind_ok (perform_adopt ..), perform_bind_ok holds, if_pos rfl, perform,
      perform_bind_ok found, uncommanded, used, perform_bind_ok (perform_adopt ..),
      perform_bind_ok (perform_adopt ..)]
    dsimp only
    rw [if_pos present, runAction, plain, perform_bind_ok (perform_fit ..)]
    dsimp only
    rw [perform_bind_ok (Deed.perform_info_eq_after ..), if_neg (ne_true_of_eq_false unprepared),
      if_neg (ne_true_of_eq_false simulated), perform_bind_ok known]

end Mocked

/-- **Mocks.** A step whose inputs are known calls its mock and ends as the reply has it: with
success, and with the texts of the entries recorded if the mock returned a mapping; but with a fault
and without outputs if an entry has no text or if the mock ended more than its step. -/
theorem mocked_steps_end {given : Table String String} {reply : Reply}
    (mocked : Mocked site step index s stepId place action m t)
    (filled : (inputs site step stepId).perform t = (.ok given, u))
    (replies : m.respond s.registry.calls ⟨given, place, stepId, s.policy.dryRun⟩ = reply) :
    ∃ result v, (run site step index).perform s = (result, v) ∧
      MockEnds site.job stepId s v reply result ∧
      (result = .ok ⟨.success, false⟩ ↔ Contained reply) := by
  have asks : Does Deed.Inquires (inputs site step stepId) :=
    (inputs_consults (.all step) stepId).inquires
  have before : Untouched s u :=
    mocked.untouched.trans (.of_does (asks.mono fun _ => Deed.Inquires.prepares) filled)
  rw [← before.calls, ← before.dry] at replies
  rw [mocked.perform_run]
  obtain ⟨result, v, ran, ends⟩ := exists_mockEnds filled replies before.outputs
  exact ⟨result, v, ran, ends, ends.success_iff⟩

def actionStep (stepId : Scalar) (action : String) : Value :=
  .map [(.str "id", .scalar stepId), (.str "uses", .str action)]

/-- A session in which there is a mock for an action, and jobs need no confirmation. -/
def mockSession (action : String) (reply : Reply) : Session where
  policy := { confirmJobs := false }
  registry := { known := [(Action.name action, some { respond := fun _ _ => reply })] }

def mockRun (stepId : Scalar) (action : String) (reply : Reply) :
    Except Fault Outcome × Session :=
  (run buildSite (actionStep stepId action) 0).perform (mockSession action reply)

theorem mocked_steps_end_tool :
    let reply := .ok (.map [(.int 1, .list [.bool true]), (.str "v", .null)])
    ∃ v, mockRun (.str "a") "acme/tool@v1" reply = (.ok ⟨.success, false⟩, v) ∧
      MockEnds (.str "build") "a" (mockSession "acme/tool@v1" reply) v reply
        (.ok ⟨.success, false⟩) := by
  intro reply
  have mocked : Mocked buildSite (actionStep (.str "a") "acme/tool@v1") 0
      (mockSession "acme/tool@v1" reply) "a" "/" "acme/tool@v1"
      { respond := fun _ _ => reply } _ :=
    .intro rfl rfl rfl rfl rfl rfl rfl rfl rfl rfl rfl (Registry.perform_get_of_known rfl)
  have filled (t : Session) :
      (inputs buildSite (actionStep (.str "a") "acme/tool@v1") "a").perform t = (.ok [], t) := rfl
  obtain ⟨result, v, ran, ends, success⟩ := mocked_steps_end mocked (filled _) rfl
  have rendered : Rendered [(.int 1, .list [.bool true]), (.str "v", .null)]
      [("1", "[true]"), ("v", "")] :=
    .cons ⟨by decide +kernel, by decide +kernel⟩ (.cons ⟨rfl, rfl⟩ .nil)
  obtain rfl := success.mpr ⟨_, rendered⟩
  exact ⟨v, ran, ends⟩

/-- A workflow with a step that uses an action, and a job after it. -/
def mockWorkflow (action : String) : Mapping :=
  [(.str "on", .str "push"), (.str "jobs", .map [
    (.str "build", .map [(.str "runs-on", .str "x"),
      (.str "steps", .list [actionStep (.str "a") action])]),
    (.str "last", .map [(.str "runs-on", .str "x"), (.str "steps", .list [])])])]

/-- What comes of a run of that workflow, if its mock replies. -/
def mockedRun (action : String) (reply : Reply) : Except Fault Unit × Session :=
  (Run.execute (mockWorkflow action) "/").perform (mockSession action reply)

/-- A date has no text among outputs: its mock ends the step and the run, and the job after it is
not run. So does a mock that ends the program or whose failure has no text. A mock of an action
whose name begins like that of a checkout is not called. -/
theorem mocks_break_runs :
    (mockRun (.str "a") "acme/tool@v1" (.ok (.map [(.str "v", .scalar (.date ⟨2024, 1, 2⟩))]))).1 =
        .error (.unfit .noJson) ∧
      (match mockedRun "acme/tool@v1" (.ok (.map [(.str "v", .scalar (.date ⟨2024, 1, 2⟩))])) with
        | (.error (.unfit .noJson), t) => t.ledger.completed == []
        | _ => false) = true ∧
      (match mockedRun "acme/tool@v1" (.escape (.exit 0)) with
        | (.error (.escaped (.exit 0)), t) => t.ledger.completed == []
        | _ => false) = true ∧
      (match mockedRun "acme/tool@v1" (.escape .textless) with
        | (.error (.escaped .textless), t) => t.ledger.completed == []
        | _ => false) = true ∧
      (match mockedRun "acme/tool@v1" (.error "no") with
        | (.ok (), t) => t.ledger.completed == [.str "build", .str "last"]
        | _ => false) = true ∧
      (mockRun (.str "a") "actions/checkout-lfs@v1" (.ok (.map []))).1.toOption =
        some ⟨.skipped, false⟩ := by
  refine ⟨rfl, ?_, ?_, ?_, ?_, ?_⟩ <;> decide +kernel

end Rehearsal.Step
