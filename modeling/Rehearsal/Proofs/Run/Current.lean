import Rehearsal.Proofs.Context.Lookup
import Rehearsal.Proofs.Job.Seen
import Rehearsal.Proofs.Run.Memory
import Rehearsal.Proofs.Run.Order
import Rehearsal.Proofs.Variable.Decoded

/-! A reference to an output of a job has no other value than the one on record, in commands and in
conditions, if only jobs that need the job mention its outputs: `outputs_stay_current`. The
references are resolved when the job is done, and then nothing changes its outputs. -/

namespace Rehearsal

open Play Reference

def Event.command? : Event → Option String
  | exec command _ _ _ => some command
  | _ => none

variable {job name : String} {s t : Session} {Kind : Deed → Prop} {Allowed : String → Prop}

/-! ### The value of a reference -/

/-- That a reference to an output has kept no value before its job is done, and no other value than
the one on record. -/
structure Session.Current (s : Session) (job name : String) : Prop where
  done : ∀ value, s.kept? (needed job name) = some value →
    Job.isDone s.ledger.completed (.str job) = true
  same : ∀ value output, s.kept? (needed job name) = some value →
    s.context.jobOutput? (.str job) name = some output → value = output

theorem Session.current_of_fresh (fresh : s.kept? (needed job name) = none) :
    s.Current job name where
  done value kept := by
    rw [fresh] at kept
    cases kept
  same value output kept := by
    rw [fresh] at kept
    cases kept

theorem Session.Current.resolve (current : s.Current job name) (owner : IsName job)
    (named : IsName name) {output : String}
    (recorded : s.context.jobOutput? (.str job) name = some output) (workflow : Mapping) :
    ((Rehearsal.resolve workflow (needed job name)).perform s).1 = .ok output := by
  cases kept : s.kept? (needed job name) with
  | some value =>
    rw [perform_resolve_of_kept kept, current.same value output kept recorded]
  | none =>
    obtain ⟨u, given, -⟩ := perform_found_of_job? (owner.isPath_needed named)
      (owner.job?_needed named) recorded workflow
    rw [perform_resolve_of_fresh kept, perform_bind_ok given]
    rfl

/-- That commands and conditions see the output on record. -/
def Session.Agrees (s : Session) (job name : String) : Prop :=
  ∀ output, s.context.jobOutput? (.str job) name = some output →
    (∀ workflow, ((Rehearsal.resolve workflow (needed job name)).perform s).1 = .ok output) ∧
    ∀ frame, ((Condition.lookup frame (needed job name)).perform s).1 =
      .ok (Condition.recorded (some output))

theorem Session.Current.agrees (current : s.Current job name) (owner : IsName job)
    (named : IsName name) : s.Agrees job name := by
  intro output recorded
  refine ⟨current.resolve owner named recorded, fun frame => ?_⟩
  rw [Condition.perform_lookup_of_job? (owner.job?_needed named), recorded]

/-! ### Acts of a job -/

theorem Deed.OfJob.jobOutput? {d : Deed} {title other : Scalar} (own : d.OfJob title)
    (differs : (title == other) = false) (name : String) (s : Session) :
    (d.after s).context.jobOutput? other name = s.context.jobOutput? other name := by
  cases d with
  | recordJob owner output value =>
    obtain rfl : owner = title := own
    show (Context.recordJob owner output value s.context).jobOutput? other name = _
    rw [Context.jobOutput?_recordJob, if_neg fun both => Bool.eq_false_iff.mp differs both.1]
  | _ =>
    simp [after, play, Play.echo, Play.perform_discard, Job.skip, Job.failLast,
      Context.jobOutput?, Context.recordStep, Context.remember]

namespace Act

/-- The kind of the acts of a job that resolve a reference only if the job that it names is done. -/
abbrev OfJob (title : Scalar) (job name : String) (done : List Scalar) (a : Act) : Prop :=
  a.Of (Deed.OfJob title) fun expression =>
    Job.isDone done (.str job) = true ∨ Avoids job name expression

theorem Of.after_completed {a : Act} (own : a.Of Kind Allowed) (s : Session) :
    (a.after s).ledger.completed = s.ledger.completed := by
  cases a with
  | deed d => exact d.after_completed s
  | resolve workflow expression =>
    exact (resolve_inquires workflow expression).keeps (·.ledger.completed)
      (fun d u _ => d.after_completed u) s

theorem Of.jobOutput? {a : Act} {title : Scalar} (own : a.Of (Deed.OfJob title) Allowed)
    (other : title ≠ .str job) (s : Session) :
    (a.after s).context.jobOutput? (.str job) name = s.context.jobOutput? (.str job) name := by
  cases a with
  | deed d =>
    have differs : (title == .str job) = false :=
      Bool.eq_false_iff.mpr fun same => other (Scalar.beq_str_iff.mp same)
    exact own.1.jobOutput? differs name s
  | resolve workflow expression =>
    have same : s.SameOutputs ((resolve workflow expression).after s) :=
      (resolve_inquires workflow expression).sameOutputs rfl
    exact same.jobOutput? ..

variable {title : Scalar} {done : List Scalar}

/-- An act of a job keeps a reference current. The own outputs of the job that is referred to may
change, but then the reference has kept no value. -/
theorem OfJob.current {a : Act} (own : a.OfJob title job name done) (owner : IsName job)
    (named : IsName name) (current : s.Current job name) (completed : s.ledger.completed = done)
    (fresh : title = .str job → Job.isDone done (.str job) = false) :
    (a.after s).Current job name := by
  subst completed
  have outputs (done : Job.isDone s.ledger.completed (.str job) = true) :
      (a.after s).context.jobOutput? (.str job) name = s.context.jobOutput? (.str job) name := by
    refine own.jobOutput? (fun same => ?_) s
    rw [fresh same] at done
    cases done
  -- A value is kept from before, or the act resolved the reference just now.
  have cases (value : String) (kept : (a.after s).kept? (needed job name) = some value) :
      Job.isDone s.ledger.completed (.str job) = true ∧
        (s.kept? (needed job name) = some value ∨ ∃ workflow,
          ((Rehearsal.resolve workflow (needed job name)).perform s).1 = .ok value) := by
    cases a with
    | deed d =>
      rw [Session.kept?, show after (deed d) s = d.after s from rfl, own.2.after_resolved s] at kept
      exact ⟨current.done value kept, .inl kept⟩
    | resolve workflow expression =>
      have learned : Learned workflow (chain s expression) s _ := learned_of_resolve rfl
      rcases learned.only _ value kept with before | ⟨way, given⟩
      · exact ⟨current.done value before, .inl before⟩
      · exact ⟨own.resolve_right fun avoids => avoids s way, .inr ⟨workflow, given⟩⟩
  constructor
  · intro value kept
    rw [own.after_completed s]
    exact (cases value kept).1
  · intro value output kept recorded
    obtain ⟨done, origin⟩ := cases value kept
    rw [outputs done] at recorded
    rcases origin with before | ⟨workflow, given⟩
    · exact current.same value output before recorded
    · rw [current.resolve owner named recorded] at given
      exact (Except.ok.inj given).symm

theorem all_current {acts : List Act} (own : ∀ a ∈ acts, a.OfJob title job name done)
    (owner : IsName job) (named : IsName name) (current : s.Current job name)
    (completed : s.ledger.completed = done)
    (fresh : title = .str job → Job.isDone done (.str job) = false) :
    (all acts s).Current job name ∧ (all acts s).ledger.completed = done ∧
      (title ≠ .str job → (all acts s).context.jobOutput? (.str job) name =
        s.context.jobOutput? (.str job) name) := by
  induction acts generalizing s with
  | nil => exact ⟨current, completed, fun _ => rfl⟩
  | cons a acts ih =>
    obtain ⟨first, others⟩ := List.forall_mem_cons.mp own
    have next := first.current owner named current completed fresh
    obtain ⟨later, listed, outputs⟩ := ih others next ((first.after_completed s).trans completed)
    exact ⟨later, listed, fun other => (outputs other).trans (first.jobOutput? other s)⟩

end Act

theorem Act.exists_of_mem_allCalls {acts : List Act} {c : Call} (member : c ∈ allCalls acts s) :
    ∃ before workflow expression, before ++ [.resolve workflow expression] <+: acts ∧
      c ∈ Call.along workflow expression (all before s) := by
  induction acts generalizing s with
  | nil => cases member
  | cons a acts ih =>
    rcases List.mem_append.mp member with here | later
    · cases a with
      | deed d => cases here
      | resolve workflow expression =>
        exact ⟨[], workflow, expression, List.prefix_append .., here⟩
    · obtain ⟨before, workflow, expression, part, way⟩ := ih later
      exact ⟨a :: before, workflow, expression, List.cons_prefix_cons.mpr ⟨rfl, part⟩, way⟩

namespace Run

/-! ### Mentions of outputs -/

/-- That a job is among those that another one needs. -/
def Lists (definition : Value) (job : String) : Prop :=
  job ∈ (Job.needs definition).toOption.getD []

instance (definition : Value) (job : String) : Decidable (Lists definition job) :=
  inferInstanceAs (Decidable (job ∈ (Job.needs definition).toOption.getD []))

/-- That a workflow mentions the outputs of a job only inside the jobs that need it. -/
structure Confined (workflow : Mapping) (job : String) : Prop where
  elsewhere : ∀ entry ∈ workflow, (entry.1 == .str "jobs") = false →
    ¬entry.2.Mentions (neededStart job)
  jobs : ∀ entry ∈ statedJobs workflow, entry.2.Mentions (neededStart job) → Lists entry.2 job

instance (workflow : Mapping) (job : String) : Decidable (Confined workflow job) :=
  decidable_of_iff (_ ∧ _) ⟨fun ⟨elsewhere, jobs⟩ => ⟨elsewhere, jobs⟩, fun h => ⟨h.1, h.2⟩⟩

def matrixText? (definition : Value) : Option String :=
  match Job.matrix (definition.mapping?.getD []) with
  | .str text => some text
  | _ => none

/-- That a matrix in the form of a text names no expression, and stands for a value that mentions
the outputs of a job only if it is needed. -/
def Settled (workflow : Mapping) (job : String) : Prop :=
  ∀ entry ∈ statedJobs workflow, ∀ text ∈ matrixText? entry.2,
    Expression.Placeholder.extract text = [] ∧
      ∀ value ∈ (Json.parse text).toOption, value.Mentions (neededStart job) → Lists entry.2 job

instance (workflow : Mapping) (job : String) : Decidable (Settled workflow job) :=
  inferInstanceAs (Decidable (∀ entry ∈ statedJobs workflow, ∀ text ∈ matrixText? entry.2,
    Expression.Placeholder.extract text = [] ∧
      ∀ value ∈ (Json.parse text).toOption, value.Mentions (neededStart job) → Lists entry.2 job))

variable {workflow : Mapping} {root : String} {title : Scalar} {definition : Value}

theorem Confined.uses_elsewhere (confined : Confined workflow job) (owner : IsName job)
    (name key : String) (other : key ≠ "jobs") :
    ((Table.find? (.str key) workflow).getD .null).Uses (Avoids job name) := by
  cases found : Table.find? (.str key) workflow with
  | none => exact .null
  | some value =>
    obtain ⟨spelling, member, same⟩ := Table.mem_of_find?_eq_some found
    obtain rfl := Scalar.beq_str_iff.mp same
    refine owner.uses_of_not_mentions name (confined.elsewhere _ member ?_)
    refine Bool.eq_false_iff.mpr fun equal => other ?_
    cases Scalar.beq_str_iff.mp equal
    rfl

theorem decodes_of_settled (owner : IsName job) (settled : Settled workflow job)
    (stated : (title, definition) ∈ statedJobs workflow) (unlisted : ¬Lists definition job)
    (uses : definition.Uses (Avoids job name)) :
    Matrix.Decodes (Avoids job name) ⟨workflow, title, []⟩
      (Job.matrix (definition.mapping?.getD [])) := by
  intro text same s value t resolved
  have stands : text ∈ matrixText? definition := by
    rw [matrixText?, same]
    rfl
  obtain ⟨plain, decoded⟩ := settled _ stated text stands
  have own : (Job.matrix (definition.mapping?.getD [])).Uses (Avoids job name) :=
    (uses.mappingD.findD _).fieldD _
  have filled : (fill ⟨workflow, title, []⟩ "matrix" text).perform s = (.ok text, s) := by
    rw [fill, plain, fillWith, pure_bind, String.ofList_toList]
    rfl
  rw [Matrix.resolveJson, perform_bind_ok filled] at resolved
  split at resolved
  · next parsed =>
    cases resolved
    have read : value ∈ (Json.parse text).toOption := by
      rw [parsed]
      rfl
    exact owner.uses_of_not_mentions name fun mentions => unlisted (decoded value read mentions)
  · cases resolved
    rwa [same] at own

/-- Running a job that neither needs nor mentions another one avoids references to its outputs. -/
theorem consults_of_unlisted (owner : IsName job) (named : IsName name)
    (confined : Confined workflow job) (settled : Settled workflow job)
    (stated : (title, definition) ∈ statedJobs workflow) (unlisted : ¬Lists definition job) :
    Consults (Deed.OfJob title) (Avoids job name) (Job.run workflow root title definition) := by
  have uses : definition.Uses (Avoids job name) :=
    owner.uses_of_not_mentions name fun mentions => unlisted (confined.jobs _ stated mentions)
  have defaults := confined.uses_elsewhere owner name "defaults" (by decide)
  refine Job.run_consults rfl ?_ (decodes_of_settled owner settled stated unlisted uses)
  exact {
    environment := confined.uses_elsewhere owner name "env" (by decide)
    directory := (defaults.fieldD _).fieldD _
    definition := uses.mappingD
    refers := fun path => owner.avoids_of_isPath named }

theorem Turn.Taken.done_of_lists {turn : Turn} {jobs : Mapping}
    (taken : turn.Taken workflow root jobs) (lists : Lists turn.job job) :
    Job.isDone turn.start.ledger.completed (.str job) = true := by
  obtain ⟨needed, readable, ready⟩ := taken.ready
  rw [Lists, readable] at lists
  exact List.all_eq_true.mp ready job lists

theorem Turn.Taken.consults {turn : Turn}
    (taken : turn.Taken workflow root (statedJobs workflow)) (owner : IsName job)
    (named : IsName name) (confined : Confined workflow job) (settled : Settled workflow job) :
    Consults (Deed.OfJob turn.name)
      (fun expression => Job.isDone turn.start.ledger.completed (.str job) = true ∨
        Avoids job name expression)
      (Job.run workflow root turn.name turn.job) := by
  -- A job that lists another one runs only when that one is done.
  by_cases done : Job.isDone turn.start.ledger.completed (.str job) = true
  · have everything (v : Value) : v.Uses fun expression =>
        Job.isDone turn.start.ledger.completed (.str job) = true ∨ Avoids job name expression :=
      (Value.Uses.all v).mono fun _ _ => .inl done
    refine Job.run_consults rfl ?_ fun _ _ _ value _ _ => everything value
    exact ⟨everything _, everything _, everything _, fun _ _ _ => .inl done⟩
  · exact (consults_of_unlisted owner named confined settled taken.stated
      fun lists => done (taken.done_of_lists lists)).allow fun _ => .inr

/-! ### Turns -/

/-- That acts are those of a turn in which references to the outputs of a job are resolved only if
it is done. -/
structure Turn.Made (job name : String) (turn : Turn) (acts : List Act) : Prop where
  own : ∀ a ∈ acts, a.OfJob turn.name job name turn.start.ledger.completed
  same : turn.finish = Act.all acts turn.start

variable {turn : Turn} {turns : List Turn} {acts : List Act} {u : Session}
  {result : Except Fault Unit}

theorem Turn.Taken.exists_made (taken : turn.Taken workflow root (statedJobs workflow))
    (owner : IsName job) (named : IsName name) (confined : Confined workflow job)
    (settled : Settled workflow job) : ∃ acts, turn.Made job name acts := by
  obtain ⟨acts, own, same⟩ := (taken.consults owner named confined settled).steps turn.start
  rw [taken.ran] at same
  exact ⟨acts, own, same⟩

/-- At each moment of a turn the reference is current, and the outputs of any job but that of the
turn are as they were. -/
theorem Turn.Made.current (made : turn.Made job name acts)
    (taken : turn.Taken workflow root (statedJobs workflow)) (owner : IsName job)
    (named : IsName name) (current : turn.start.Current job name) {before : List Act}
    (part : before <+: acts) :
    (Act.all before turn.start).Current job name ∧
      (Job.isDone turn.start.ledger.completed (.str job) = true →
        (Act.all before turn.start).context.jobOutput? (.str job) name =
          turn.start.context.jobOutput? (.str job) name) := by
  have fresh (same : turn.name = .str job) :
      Job.isDone turn.start.ledger.completed (.str job) = false := same ▸ taken.fresh
  obtain ⟨now, -, outputs⟩ := Act.all_current (fun a member => made.own a (part.subset member))
    owner named current rfl fresh
  refine ⟨now, fun done => outputs fun same => ?_⟩
  rw [fresh same] at done
  cases done

/-- When a job has been done, its outputs stay as they are, and from the start the reference is
current. -/
theorem Turns.current (turned : Turns workflow root (statedJobs workflow) s turns result u)
    (owner : IsName job) (named : IsName name) (confined : Confined workflow job)
    (settled : Settled workflow job) (current : s.Current job name) :
    (∀ turn ∈ turns, turn.start.Current job name ∧
      (Job.isDone turn.start.ledger.completed (.str job) = true →
        u.context.jobOutput? (.str job) name =
          turn.start.context.jobOutput? (.str job) name)) ∧
      (Job.isDone s.ledger.completed (.str job) = true →
        u.context.jobOutput? (.str job) name = s.context.jobOutput? (.str job) name) := by
  have ends {turn : Turn} (taken : turn.Taken workflow root (statedJobs workflow))
      (current : turn.start.Current job name) : turn.finish.Current job name ∧
      (Job.isDone turn.start.ledger.completed (.str job) = true →
        turn.finish.context.jobOutput? (.str job) name =
          turn.start.context.jobOutput? (.str job) name) := by
    obtain ⟨acts, made⟩ := taken.exists_made owner named confined settled
    rw [made.same]
    exact made.current taken owner named current (List.prefix_refl acts)
  induction turned with
  | none => exact ⟨List.forall_mem_nil _, fun _ => rfl⟩
  | unclear => exact ⟨List.forall_mem_nil _, fun _ => rfl⟩
  | failed taken failed =>
    obtain ⟨-, outputs⟩ := ends taken current
    exact ⟨List.forall_mem_singleton.mpr ⟨current, outputs⟩, outputs⟩
  | @next turn turns result u taken ended rest ih =>
    obtain ⟨later, outputs⟩ := ends taken current
    have more (done : Job.isDone turn.start.ledger.completed (.str job) = true) :
        Job.isDone turn.noted.ledger.completed (.str job) = true := by
      rw [Turn.noted_completed, Job.isDone, List.any_append, Bool.or_eq_true]
      exact .inl done
    -- Noting the job of the turn as done touches neither its outputs nor what is kept.
    have noted : turn.noted.Current job name := by
      refine ⟨fun value kept => more ?_, later.same⟩
      have done := later.done value kept
      rwa [Turn.finish_completed] at done
    obtain ⟨others, stays⟩ := ih noted
    have own (done : Job.isDone turn.start.ledger.completed (.str job) = true) :
        u.context.jobOutput? (.str job) name =
          turn.start.context.jobOutput? (.str job) name :=
      (stays (more done)).trans (outputs done)
    exact ⟨List.forall_mem_cons.mpr ⟨⟨current, own⟩, others⟩, own⟩

theorem Turn.Made.done_of_call (made : turn.Made job name acts) {c : Call}
    (member : c ∈ Act.allCalls acts turn.start) (called : c.expression = needed job name) :
    Job.isDone turn.start.ledger.completed (.str job) = true ∧
      ∃ before, before <+: acts ∧ c.start = Act.all before turn.start := by
  obtain ⟨before, workflow, expression, part, way⟩ := Act.exists_of_mem_allCalls member
  obtain ⟨x, inside, rfl⟩ := List.mem_map.mp way
  obtain rfl : x = needed job name := called
  have own := made.own (.resolve workflow expression) (part.subset (by simp))
  refine ⟨own.resolve_right fun avoids => avoids _ inside, before, ?_, rfl⟩
  exact (List.prefix_append ..).trans part

/-- **Current outputs.** In a workflow in which only jobs that need a job mention its outputs, every
call that resolves a reference to such an output gives the value on record if there is one. At each
moment of each turn a command and a condition with that reference see the value on record, which
is the one at the end of the run when the turn is that of a job that needs the other one. -/
theorem outputs_stay_current {workflow : Mapping} {job name : String} (owner : IsName job)
    (named : IsName name) (confined : Confined workflow job) (settled : Settled workflow job)
    (root : String) {s : Session} (fresh : s.kept? (needed job name) = none) :
    ∃ turns, Account workflow (Path.tidy root) s turns ((execute workflow root).perform s).2 ∧
      ∀ turn ∈ turns, (∃ acts, turn.Made job name acts) ∧ ∀ acts, turn.Made job name acts →
        (∀ c ∈ Act.allCalls acts turn.start, c.expression = needed job name →
          c.start.context.jobOutput? (.str job) name =
            ((execute workflow root).perform s).2.context.jobOutput? (.str job) name ∧
          ∀ output, c.start.context.jobOutput? (.str job) name = some output →
            c.result = .ok output) ∧
        ∀ before, before <+: acts → (Act.all before turn.start).Agrees job name ∧
          (Lists turn.job job → (Act.all before turn.start).context.jobOutput? (.str job) name =
            ((execute workflow root).perform s).2.context.jobOutput? (.str job) name) := by
  obtain ⟨turns, account⟩ := account_of_execute workflow root s
  refine ⟨turns, account, ?_⟩
  have made := account
  obtain ⟨start, ended, last, opened, turned, written⟩ := made
  generalize ((execute workflow root).perform s).2 = t at account written ⊢
  have current : start.Current job name := by
    refine Session.current_of_fresh ?_
    obtain ⟨records, toolchain, -, same⟩ := opened.rest
    rw [same]
    exact fresh
  have final : t.context = last.context := by
    obtain ⟨records, -, same⟩ := written
    rw [same]
  obtain ⟨course, -⟩ := turned.current owner named confined settled current
  intro turn member
  have taken : turn.Taken workflow (Path.tidy root) (statedJobs workflow) := by
    obtain ⟨before, after, same⟩ := List.append_of_mem member
    rw [same] at account
    exact account.taken
  refine ⟨taken.exists_made owner named confined settled, ?_⟩
  intro acts made
  obtain ⟨begun, stays⟩ := course turn member
  refine ⟨?_, fun before part => ?_⟩
  · intro c call called
    obtain ⟨done, before, part, start⟩ := made.done_of_call call called
    obtain ⟨now, outputs⟩ := made.current taken owner named begun part
    rw [Call.result, called, start, final, stays done, outputs done]
    refine ⟨rfl, fun output recorded => ?_⟩
    exact now.resolve owner named ((outputs done).trans recorded) c.workflow
  · obtain ⟨now, outputs⟩ := made.current taken owner named begun part
    refine ⟨now.agrees owner named, fun lists => ?_⟩
    have done := taken.done_of_lists lists
    rw [final, stays done, outputs done]

/-! ### A run in which a job hands on an output -/

/-- Three jobs, the first one with a matrix in the form of a text. The last one needs the second one
and refers to its only output. -/
def relay (matrix job name : String) : Mapping :=
  let running (command : String) : List (Scalar × Value) :=
    [(.str "runs-on", .str "x"), (.str "steps", .list [.map [(.str "run", .str command)]])]
  [(.str "on", .str "push"), (.str "jobs", .map [
    (.str "early", .map ((.str "strategy", .map [(.str "matrix", .str matrix)]) ::
      running "true")),
    (.str job, .map ((.str "outputs", .map [(.str name, .str "new")]) :: running "true")),
    (.str "late", .map ((.str "needs", .list [.str job]) ::
      running ("echo $\x7b\x7b " ++ needed job name ++ " \x7d\x7d")))])]

def answered (texts : List String) : Session where
  policy := { confirmJobs := false, runAllCommands := true }
  answers := { texts }

theorem outputs_stay_current_relay :
    IsName "build" ∧ IsName "version" ∧ Confined (relay "" "build" "version") "build" ∧
      Settled (relay "" "build" "version") "build" ∧
      (answered []).kept? (needed "build" "version") = none ∧
      (∃ turns, Account (relay "" "build" "version") (Path.tidy "") (answered []) turns
          ((execute (relay "" "build" "version") "").perform (answered [])).2 ∧
        ∀ turn ∈ turns, ∃ acts, turn.Made "build" "version" acts ∧ ∀ before, before <+: acts →
          (Act.all before turn.start).Agrees "build" "version") ∧
      ((execute (relay "" "build" "version") "").perform (answered [])).2.kept?
        (needed "build" "version") = some "new" := by
  have owner : IsName "build" := by decide
  have named : IsName "version" := by decide
  have confined : Confined (relay "" "build" "version") "build" := by decide +kernel
  have settled : Settled (relay "" "build" "version") "build" := by decide +kernel
  have fresh : (answered []).kept? (needed "build" "version") = none := rfl
  obtain ⟨turns, account, each⟩ := outputs_stay_current owner named confined settled "" fresh
  refine ⟨owner, named, confined, settled, fresh, ⟨turns, account, fun turn member => ?_⟩,
    by decide +kernel⟩
  obtain ⟨⟨acts, made⟩, current⟩ := each turn member
  exact ⟨acts, made, fun before part => ((current acts made).2 before part).1⟩

/-- That a run resolves the reference to something else than the output on record, though outputs of
the job are only mentioned where it is needed and the matrix is not an expression itself. -/
structure Stale (matrix job name : String) (texts : List String) : Prop where
  chars : (job.toList ++ name.toList).all Expression.isNameChar = true
  confined : Confined (relay matrix job name) job
  plain : Expression.Placeholder.length? matrix.toList ≠ some matrix.toList.length
  recorded : ((execute (relay matrix job name) "").perform (answered texts)).2.context.jobOutput?
    (.str job) name = some "new"
  ran : ∃ event ∈ ((execute (relay matrix job name) "").perform (answered texts)).2.trace,
    event.command? = some "echo old"
  resolved : ((execute (relay matrix job name) "").perform (answered texts)).2.kept?
    (needed job name) = some "old"

instance (matrix job name : String) (texts : List String) :
    Decidable (Stale matrix job name texts) :=
  decidable_of_iff (_ ∧ _ ∧ _ ∧ _ ∧ _ ∧ _)
    ⟨fun ⟨a, b, c, d, e, f⟩ => ⟨a, b, c, d, e, f⟩, fun ⟨a, b, c, d, e, f⟩ => ⟨a, b, c, d, e, f⟩⟩

/-- The reference goes stale if the matrix of an earlier job writes it with escapes, or makes it of
an answer, and if the name of the job or of the output is empty. -/
theorem outputs_go_stale :
    Stale "\x7b\"a\": \"\\u0024\x7b\x7b needs\\u002ebuild.outputs.version \x7d\x7d\"\x7d"
      "build" "version" ["old"] ∧
    Stale "\x7b\"a\": \"$\x7b\x7b github.event.inputs.a \x7d\x7d\"\x7d" "build" "version"
      ["$\x7b\x7b needs.build.outputs.version \x7d\x7d", "old"] ∧
    Stale "" "build" "" ["old"] ∧ Stale "" "" "version" ["old"] := by
  decide +kernel

end Run
end Rehearsal
