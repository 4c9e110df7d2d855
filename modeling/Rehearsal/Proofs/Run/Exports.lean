import Rehearsal.Proofs.Job.Concluded
import Rehearsal.Proofs.Run.Current

/-! The outputs of a job are written by its own instances, each at its end, and by nothing else.
From the moment at which the job is done they are those of the last instance that came to its end:
`jobs_export_their_last_outputs`. -/

namespace Rehearsal

open Play

/-- That the outputs on record for a job are these. -/
def Session.Has (s : Session) (job : Scalar) (outputs : String → Option String) : Prop :=
  ∀ name, s.context.jobOutput? job name = outputs name

/-! ### The instances of a job -/

/-- An instance that ran, and what it exported if it came to its end. -/
structure Conclusion where
  run : InstanceRun
  exported : Option (List (String × String))

namespace Conclusion

def Holds (c : Conclusion) : Prop := c.run.Concludes c.exported

/-- The outputs of the last instance that came to its end; none if no instance did. -/
def lastExported (conclusions : List Conclusion) (name : String) : Option String :=
  Table.find? name (Table.ofList ((conclusions.filterMap (·.exported)).getLast?.getD []))

variable {c : Conclusion} {conclusions : List Conclusion} {definition : Mapping} {job : Scalar}
  {name : String}

theorem Holds.names (holds : c.Holds) {outputs : List (String × String)}
    (ends : c.exported = some outputs) :
    (Job.statedOutputs c.run.definition).map (·.1.plain) =
      outputs.map fun output => .ok output.1 := by
  obtain ⟨run, exported⟩ := c
  obtain rfl : exported = some outputs := ends
  cases holds with
  | ended comes before stepped resolved after => exact resolved.names

theorem Holds.finish (holds : c.Holds) (ended : c.run.result = .ok ()) (name : String) :
    c.run.finish.context.jobOutput? c.run.site.job name =
      (Table.find? name (Table.ofList (c.exported.getD []))).or
        (c.run.start.context.jobOutput? c.run.site.job name) := by
  obtain ⟨run, exported⟩ := c
  cases holds with
  | skipped _ kept | halted _ _ kept => exact Context.jobOutput?_congr kept.jobs ..
  | broken fails | cut fails => exact absurd (fails.symm.trans ended) nofun
  | ended comes before stepped resolved after =>
    rw [Context.jobOutput?_congr (after.mono Deed.Inquires.sparesJobs).jobs, resolved.jobOutput?,
      Context.jobOutput?_congr before.jobs]
    exact if_pos BEq.rfl

/-- The outputs that an instance exports are hidden by those of the later ones, which have the same
names. -/
theorem lastExported_cons (holds : ∀ k ∈ c :: conclusions, k.Holds)
    (own : ∀ k ∈ c :: conclusions, k.run.definition = definition) (name : String) :
    lastExported (c :: conclusions) name =
      (lastExported conclusions name).or
        (Table.find? name (Table.ofList (c.exported.getD []))) := by
  unfold lastExported
  cases exported : c.exported with
  | none => simp [exported, Table.ofList, Table.putAll, Table.find?]
  | some outputs =>
    rw [List.filterMap_cons_some exported, List.getLast?_cons, Option.getD_some, Option.getD_some]
    cases last : (conclusions.filterMap (·.exported)).getLast? with
    | none => rfl
    | some others =>
      obtain ⟨k, member, ends⟩ := List.mem_filterMap.mp (List.mem_of_getLast? last)
      have first := (holds c List.mem_cons_self).names exported
      have later := (holds k (List.mem_cons_of_mem _ member)).names ends
      rw [own c List.mem_cons_self] at first
      rw [own k (List.mem_cons_of_mem _ member)] at later
      have injective : Function.Injective (Except.ok : String → Except Unfit String) :=
        fun _ _ => Except.ok.inj
      have same : others.map (·.1) = outputs.map (·.1) :=
        injective.list_map (by simpa [Function.comp_def] using later.symm.trans first)
      exact (Table.find?_ofList_or same name).symm

end Conclusion

open Conclusion

theorem exists_conclusions {workflow jobs : Mapping} {runs : List InstanceRun}
    (ran : ∀ r ∈ runs, r.Ran workflow jobs) :
    ∃ conclusions : List Conclusion,
      conclusions.map (·.run) = runs ∧ ∀ c ∈ conclusions, c.Holds := by
  induction runs with
  | nil => exact ⟨[], rfl, List.forall_mem_nil _⟩
  | cons r runs ih =>
    obtain ⟨own, others⟩ := List.forall_mem_cons.mp ran
    obtain ⟨exported, concludes⟩ := own.concludes
    obtain ⟨conclusions, same, holds⟩ := ih others
    exact ⟨⟨r, exported⟩ :: conclusions, congrArg (r :: ·) same,
      List.forall_mem_cons.mpr ⟨concludes, holds⟩⟩

section Rows

variable {workflow jobs : Mapping} {s t : Session} {runs : List InstanceRun}
  {result : Except Fault Unit} {job : Scalar} {definition : Mapping} {conclusions : List Conclusion}

theorem Row.jobOutput? (row : Row workflow jobs s runs (.ok ()) t)
    (own : ∀ r ∈ runs, r.site.job = job ∧ r.definition = definition)
    (same : conclusions.map (·.run) = runs) (holds : ∀ c ∈ conclusions, c.Holds) (name : String) :
    t.context.jobOutput? job name =
      (lastExported conclusions name).or (s.context.jobOutput? job name) := by
  have kept {u v : Session} (apart : Reaches Deed.Inquires u v) :
      v.context.jobOutput? job name = u.context.jobOutput? job name :=
    Context.jobOutput?_congr (apart.mono Deed.Inquires.sparesJobs).jobs ..
  generalize ok : (.ok () : Except Fault Unit) = result at row
  induction row generalizing conclusions with
  | none result apart =>
    obtain rfl := List.map_eq_nil_iff.mp same
    exact kept apart
  | failed => cases ok
  | @next s u r runs result apart ran ended rest ih =>
    obtain ⟨c, conclusions, rfl, rfl, rfl⟩ := List.map_eq_cons_iff.mp same
    obtain ⟨⟨mine, -⟩, others⟩ := List.forall_mem_cons.mp own
    obtain ⟨first, further⟩ := List.forall_mem_cons.mp holds
    have defined : ∀ k ∈ c :: conclusions, k.run.definition = definition := fun k member =>
      (own k.run (List.mem_map_of_mem member)).2
    have gave := first.finish ended name
    rw [mine, kept apart] at gave
    rw [ih others rfl further ok, gave, lastExported_cons holds defined, Option.or_assoc]

end Rows

/-! ### The jobs of a run -/

namespace Run

variable {workflow jobs : Mapping} {root : String} {s t u : Session} {result : Except Fault Unit}
  {turns earlier later : List Turn} {job : Scalar} {outputs : String → Option String}

/-- That these are the outputs on record for a job throughout a turn. -/
def Turn.Holds (turn : Turn) (job : Scalar) (outputs : String → Option String) : Prop :=
  ∀ before, before <+: turn.deeds → (Deed.all before turn.start).Has job outputs

theorem Turn.Taken.holds {turn : Turn} (taken : turn.Taken workflow root jobs)
    (other : (turn.name == job) = false) (has : turn.start.Has job outputs) :
    turn.Holds job outputs := by
  intro before part name
  have own : ∀ d ∈ before, d.OfJob turn.name := fun d member => taken.own d (part.subset member)
  exact (Deed.all_same (·.context.jobOutput? job name)
    (fun d u own => own.jobOutput? other name u) own turn.start).trans (has name)

theorem Turns.holds (turned : Turns workflow root jobs s turns result u)
    (others : ∀ turn ∈ turns, (turn.name == job) = false) (has : s.Has job outputs) :
    (∀ turn ∈ turns, turn.Holds job outputs) ∧ u.Has job outputs := by
  induction turned with
  | none | unclear => exact ⟨List.forall_mem_nil _, has⟩
  | @failed turn fault taken failed =>
    have holds := taken.holds (others _ (List.mem_singleton_self _)) has
    exact ⟨List.forall_mem_singleton.mpr holds, holds _ List.prefix_rfl⟩
  | @next turn turns result u taken ended rest ih =>
    obtain ⟨other, others⟩ := List.forall_mem_cons.mp others
    have holds := taken.holds other has
    obtain ⟨kept, final⟩ := ih others (holds _ List.prefix_rfl)
    exact ⟨List.forall_mem_cons.mpr ⟨holds, kept⟩, final⟩

/-- That the outputs of the job of a turn are written by its instances only, each at its end, in a
run with these turns before and after it that leaves this session. -/
structure Staged.Exports (j : Staged) (earlier later : List Turn) (t : Session) : Prop where
  before : ∀ turn ∈ earlier, turn.Holds j.turn.name fun _ => none
  start : j.turn.start.Has j.turn.name fun _ => none
  told : ∃ conclusions : List Conclusion, conclusions.map (·.run) = j.runs ∧
    ∀ c ∈ conclusions, c.Holds
  instances : ∀ conclusions : List Conclusion, conclusions.map (·.run) = j.runs →
    (∀ c ∈ conclusions, c.Holds) →
    (∀ first c rest, conclusions = first ++ c :: rest →
      c.run.start.Has j.turn.name (lastExported first)) ∧
    (j.turn.result = .ok () →
      (∀ turn ∈ later, turn.Holds j.turn.name (lastExported conclusions)) ∧
        t.Has j.turn.name (lastExported conclusions))

theorem Account.apart {turn : Turn}
    (account : Account workflow root s (earlier ++ turn :: later) t) :
    ∀ other ∈ earlier ++ later, (other.name == turn.name) = false := by
  intro other member
  rcases List.mem_append.mp member with before | after
  · have fresh := account.fresh List.mem_cons_self
    exact isDone_eq_false.mp fresh _ (List.mem_map_of_mem before)
  · obtain ⟨first, rest, rfl⟩ := List.append_of_mem after
    rw [← List.cons_append, ← List.append_assoc] at account
    have fresh := isDone_eq_false.mp (account.fresh List.mem_cons_self)
    rw [BEq.comm]
    exact fresh _ (List.mem_map_of_mem (List.mem_append_right _ List.mem_cons_self))

theorem Turns.cases_cons {turn : Turn}
    (turned : Turns workflow root jobs s (turn :: turns) result u) :
    (∃ fault, turn.result = .error fault ∧ turns = [] ∧ u = turn.finish) ∨
      turn.result = .ok () ∧ Turns workflow root jobs turn.noted turns result u := by
  cases turned with
  | failed taken failed => exact .inl ⟨_, failed, rfl, rfl⟩
  | next taken ended rest => exact .inr ⟨ended, rest⟩

theorem Turns.ended {done : List Staged} {current : Option Staged}
    (turned : Turns workflow root jobs s ((done ++ current.toList).map (·.turn)) result u)
    (completes : u.ledger.completed = s.ledger.completed ++ done.map (·.turn.name)) :
    ∀ j ∈ done, j.turn.result = .ok () := by
  intro j member
  obtain ⟨first, last, rfl⟩ := List.append_of_mem member
  rw [List.append_assoc, List.cons_append, List.map_append, List.map_cons] at turned
  obtain ⟨before, -, rest⟩ := turned.split
  rcases rest.cases_cons with ⟨fault, failed, -, rfl⟩ | ⟨ended, -⟩
  · rw [j.turn.finish_completed, before.completed] at completes
    have short := congrArg List.length completes
    simp at short
  · exact ended

theorem Staged.Begun.exports {j : Staged}
    (begun : j.Begun workflow root jobs) {start last : Session}
    (turned : Turns workflow root jobs start (earlier ++ j.turn :: later) result last)
    (apart : ∀ turn ∈ earlier ++ later, (turn.name == j.turn.name) = false)
    (blank : start.Has j.turn.name fun _ => none) (kept : t.context = last.context) :
    j.Exports earlier later t := by
  obtain ⟨prior, -, rest⟩ := turned.split
  obtain ⟨before, own⟩ :=
    prior.holds (fun turn member => apart turn (List.mem_append_left _ member)) blank
  have sited : ∀ r ∈ j.runs,
      r.site.job = j.turn.name ∧ r.definition = j.turn.job.mapping?.getD [] :=
    fun r member => ⟨by rw [(begun.own r member).2], (begun.own r member).1⟩
  refine ⟨before, own, exists_conclusions fun r member => (begun.row.instances.each r member).1, ?_⟩
  intro conclusions same holds
  constructor
  · rintro first c others rfl name
    have row := begun.row
    rw [← same, List.map_append, List.map_cons] at row
    have given := row.split.jobOutput? (fun r member => sited r ?_) rfl
      (fun k member => holds k (List.mem_append_left _ member)) name
    · rwa [own, Option.or_none] at given
    · rw [← same, List.map_append]
      exact List.mem_append_left _ member
  · intro ended
    have row := begun.row
    rw [ended] at row
    have has : j.turn.noted.Has j.turn.name (lastExported conclusions) := fun name => by
      have given := row.jobOutput? sited same holds name
      rwa [own, Option.or_none] at given
    rcases rest.cases_cons with ⟨fault, failed, -⟩ | ⟨-, rest⟩
    · exact absurd (failed.symm.trans ended) nofun
    · rw [Session.Has, kept]
      exact rest.holds (fun turn member => apart turn (List.mem_append_right _ member)) has

/-- **Exported outputs.** In a run that starts without outputs of jobs, a job has none before it
takes its turn and as long as it takes none. In its turn they are written by its instances only,
each of them after its last step and not if it was skipped or halted. When the job is done, they are
those of the last instance that came to its end, and none if no instance did, and so they stay. -/
theorem jobs_export_their_last_outputs {s : Session} (blank : s.context.jobs = [])
    (workflow : Mapping) (root : String) :
    ∃ (done : List Staged) (current : Option Staged),
      Account workflow (Path.tidy root) s ((done ++ current.toList).map (·.turn))
        ((execute workflow root).perform s).2 ∧
      ((execute workflow root).perform s).2.ledger.completed = done.map (·.turn.name) ∧
      (∀ j ∈ done, j.Ended workflow (Path.tidy root) (statedJobs workflow) ∧
        j.turn.result = .ok ()) ∧
      (∀ j ∈ current, j.Begun workflow (Path.tidy root) (statedJobs workflow)) ∧
      (∀ earlier j later, done ++ current.toList = earlier ++ j :: later →
        j.Exports (earlier.map (·.turn)) (later.map (·.turn))
          ((execute workflow root).perform s).2) ∧
      ∀ job, (∀ j ∈ done ++ current.toList, (j.turn.name == job) = false) →
        (∀ j ∈ done ++ current.toList, j.turn.Holds job fun _ => none) ∧
        ((execute workflow root).perform s).2.Has job fun _ => none := by
  obtain ⟨start, turns, ended, last, opened, turned, closing⟩ := closing_of_execute workflow root s
  obtain ⟨done, current, rfl, ends, begun, completes, -⟩ := turned.staged
  have written := closing.written
  generalize ((execute workflow root).perform s).2 = t at closing written ⊢
  have account : Account workflow (Path.tidy root) s ((done ++ current.toList).map (·.turn)) t :=
    ⟨start, ended, last, opened, turned, written⟩
  have fresh (job : Scalar) : start.Has job fun _ => none := by
    obtain ⟨-, records, toolchain, -, same⟩ := opened
    intro name
    rw [same, Context.jobOutput?]
    simp [blank, Table.find?]
  have kept : t.context = last.context := by
    obtain ⟨records, -, same⟩ := written
    rw [same]
  refine ⟨done, current, account, ?_, ?_, begun, ?_, ?_⟩
  · obtain ⟨name, same⟩ := opened.ledger
    rw [written.completed, completes, same, List.nil_append]
  · exact fun j member => ⟨ends j member, turned.ended completes j member⟩
  · intro earlier j later same
    have own : j.Begun workflow (Path.tidy root) (statedJobs workflow) := by
      have member : j ∈ done ++ current.toList := same ▸ by simp
      rcases List.mem_append.mp member with inside | inside
      · exact (ends j inside).toBegun
      · exact begun j (Option.mem_toList.mp inside)
    rw [same, List.map_append, List.map_cons] at account turned
    exact own.exports turned account.apart (fresh _) kept
  · intro job others
    obtain ⟨holds, has⟩ := turned.holds (List.forall_mem_map.mpr others) (fresh job)
    rw [Session.Has, kept]
    exact ⟨List.forall_mem_map.mp holds, has⟩

/-! ### A job of which not every instance comes to its end -/

/-- A job with three instances, of which only the first two are not skipped. -/
def thrice : Mapping :=
  [(.str "on", .str "push"), (.str "jobs", .map [(.str "build", .map [
    (.str "strategy", .map [(.str "matrix", .map [(.str "n", .list [.int 1, .int 2, .int 3])])]),
    (.str "if", .str "matrix.n != 3"),
    (.str "runs-on", .str "x"),
    (.str "outputs", .map [(.str "last", .str "$\x7b\x7b matrix.n \x7d\x7d")]),
    (.str "steps", .list [.map [(.str "run", .str "make")]])])])]

theorem jobs_export_their_last_outputs_thrice :
    (answered []).context.jobs = [] ∧
      (∃ (done : List Staged) (current : Option Staged),
        Account thrice (Path.tidy "") (answered []) ((done ++ current.toList).map (·.turn))
          ((execute thrice "").perform (answered [])).2 ∧
        ∀ earlier j later, done ++ current.toList = earlier ++ j :: later →
          j.Exports (earlier.map (·.turn)) (later.map (·.turn))
            ((execute thrice "").perform (answered [])).2) ∧
      ((execute thrice "").perform (answered [])).2.context.jobOutput? (.str "build") "last" =
        some "2" := by
  have blank : (answered []).context.jobs = [] := rfl
  obtain ⟨done, current, account, -, -, -, exports, -⟩ :=
    jobs_export_their_last_outputs blank thrice ""
  exact ⟨blank, ⟨done, current, account, exports⟩, by decide +kernel⟩

end Run
end Rehearsal
