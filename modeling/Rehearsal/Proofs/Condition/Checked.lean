import Rehearsal.Proofs.Expression.Visits
import Rehearsal.Proofs.Job.Seen

/-! A reference of a condition is read from what is on record and from the bindings of the matrix,
or resolved like an expression of a command, or undefined: `lookup_cases`.

The references of an expression are checked before it is evaluated. Evaluating it looks up no
others, so each output that it looks up is on record, whatever is asked and kept meanwhile:
`checked_outputs_are_found`. -/

namespace Rehearsal

/-! ### References -/

namespace Condition

open Play

variable {frame : Frame} {path : String}

/-- That a reference is resolved when it is looked up: it is neither a result or an output nor bound
in the matrix, and has several parts. -/
structure IsResolved (frame : Frame) (path : String) : Prop where
  result : Reference.isJobResult path = false
  job : Reference.job? path = none
  step : frame.owner.stepsOf? = none ∨ Reference.step? path = none
  free : ∀ key, Text.rest? "matrix." path = some key → Table.find? (.str key) frame.matrix = none
  dotted : path.toList.contains '.' = true

inductive Looked (frame : Frame) (path : String) : Prop
  /-- What is found depends on the outputs on record only, and nothing is changed. -/
  | read (find : Context → Operand)
      (same : ∀ s t : Session, s.SameOutputs t → find t.context = find s.context)
      (performed : ∀ s, (lookup frame path).perform s = (.ok (find s.context), s))
  | resolved (own : IsResolved frame path)
      (performed : ∀ s, (lookup frame path).perform s =
        Play.perform (do return .fresh (.str (← resolve frame.workflow path))) s)
  | undefined (performed : ∀ s, (lookup frame path).perform s =
      (.error (.evaluation (.undefinedReference path)), s))

/-! ### References to no result and no output -/

/-- That a reference is neither a result of a job nor an output that the owner can see. -/
structure IsOther (frame : Frame) (path : String) : Prop where
  result : Reference.isJobResult path = false
  job : Reference.job? path = none
  step : frame.owner.stepsOf? = none ∨ Reference.step? path = none

namespace IsOther

variable (other : IsOther frame path)
include other

theorem perform_lookup_of_binding {key : String} {value : Value}
    (own : Text.rest? "matrix." path = some key)
    (bound : Table.find? (.str key) frame.matrix = some value) (s : Session) :
    (lookup frame path).perform s = (.ok ⟨value, some path⟩, s) := by
  rw [lookup, perform_get_bind]
  cases seen : frame.owner.stepsOf? with
  | none => simp [other.result, other.job, own, bound]
  | some job =>
    have none := other.step.resolve_left (by simp [seen])
    simp [other.result, other.job, none, own, bound]

theorem perform_lookup_of_unbound
    (free : ∀ key, Text.rest? "matrix." path = some key →
      Table.find? (.str key) frame.matrix = none) (s : Session) :
    (lookup frame path).perform s =
      Play.perform (if path.toList.contains '.' then do
        return .fresh (.str (← resolve frame.workflow path))
      else throw (.evaluation (.undefinedReference path))) s := by
  rw [lookup, perform_get_bind]
  cases seen : frame.owner.stepsOf? with
  | none =>
    cases own : Text.rest? "matrix." path with
    | none => simp [other.result, other.job]
    | some key => simp [other.result, other.job, free key own]
  | some job =>
    have none := other.step.resolve_left (by simp [seen])
    cases own : Text.rest? "matrix." path with
    | none => simp [other.result, other.job, none]
    | some key => simp [other.result, other.job, none, free key own]

end IsOther

theorem lookup_cases (frame : Frame) (path : String) : Looked frame path := by
  cases result : Reference.isJobResult path with
  | true =>
    refine .read (fun _ => .fresh (.str "success")) (fun _ _ _ => rfl) fun s => ?_
    rw [lookup, perform_get_bind]
    simp [result]
  | false =>
  cases job : Reference.job? path with
  | some output =>
    obtain ⟨needed, name⟩ := output
    exact .read (fun c => recorded (c.jobOutput? (.str needed) name))
      (fun _ _ same => congrArg recorded (same.jobOutput? _ name))
      (perform_lookup_of_job? job)
  | none =>
  by_cases step : frame.owner.stepsOf? = none ∨ Reference.step? path = none
  · have other : IsOther frame path := ⟨result, job, step⟩
    by_cases free : ∀ key, Text.rest? "matrix." path = some key →
        Table.find? (.str key) frame.matrix = none
    · by_cases dotted : path.toList.contains '.' = true
      · refine .resolved ⟨result, job, step, free, dotted⟩ fun s => ?_
        rw [other.perform_lookup_of_unbound free, if_pos dotted]
      · refine .undefined fun s => ?_
        rw [other.perform_lookup_of_unbound free, if_neg dotted]
        rfl
    · obtain ⟨key, found⟩ := not_forall.mp free
      obtain ⟨own, bound⟩ := Classical.not_imp.mp found
      obtain ⟨value, bound⟩ := Option.ne_none_iff_exists'.mp bound
      exact .read (fun _ => ⟨value, some path⟩) (fun _ _ _ => rfl)
        (other.perform_lookup_of_binding own bound)
  · obtain ⟨seen, found⟩ := not_or.mp step
    obtain ⟨⟨id, name⟩, found⟩ := Option.ne_none_iff_exists'.mp found
    obtain ⟨job, owner⟩ : ∃ job, frame.owner = .step job := by
      cases owner : frame.owner with
      | job => exact absurd (congrArg Owner.stepsOf? owner) seen
      | step job => exact ⟨job, rfl⟩
    exact .read (fun c => recorded (c.stepOutput? job id name))
      (fun _ _ same => congrArg recorded (same.stepOutput? job id name))
      (perform_lookup_of_step? owner found)

end Condition

/-! ### Outputs in conditions that passed the check -/

namespace Condition

open Play

variable {frame : Frame} {path : String} {e : Expr} {s t : Session}

theorem lookup_keeps_outputs (frame : Frame) (path : String) (same : s.SameOutputs t) :
    s.SameOutputs (Evaluation.runFrom (lookup frame path) t).2 :=
  have consults : Consults Deed.Inquires (fun _ => True) (lookup frame path) :=
    lookup_consults frame fun _ => trivial
  same.trans (consults.inquires.sameOutputs (Prod.eta _).symm)

theorem lookup_finds_job {needed name text : String} (same : s.SameOutputs t)
    (found : Reference.job? path = some (needed, name))
    (kept : s.context.jobOutput? (.str needed) name = some text) :
    ((lookup frame path).perform t).1 = .ok (.fresh (.str text)) := by
  rw [perform_lookup_of_job? found, same.jobOutput?, kept]
  rfl

theorem lookup_finds_step {job : Scalar} {step name text : String} (same : s.SameOutputs t)
    (owner : frame.owner = .step job) (found : Reference.step? path = some (step, name))
    (kept : s.context.stepOutput? job step name = some text) :
    ((lookup frame path).perform t).1 = .ok (.fresh (.str text)) := by
  rw [perform_lookup_of_step? owner found, same.stepOutput?, kept]
  rfl

theorem known_of_missing? (known : missing? s.context frame.owner.stepsOf? e = none)
    (mentioned : path ∈ e.references) :
    missingAt? s.context frame.owner.stepsOf? path = none :=
  List.findSome?_eq_none_iff.mp known path mentioned

theorem exists_jobOutput {needed name : String}
    (known : missingAt? s.context frame.owner.stepsOf? path = none)
    (found : Reference.job? path = some (needed, name)) :
    ∃ text, s.context.jobOutput? (.str needed) name = some text := by
  rw [missingAt?, found] at known
  dsimp only at known
  split at known
  · cases known
  · next present => exact Option.ne_none_iff_exists'.mp (by simpa using present)

theorem exists_stepOutput {step name : String}
    (known : missingAt? s.context frame.owner.stepsOf? path = none)
    (found : Reference.step? path = some (step, name)) :
    ∃ job text, frame.owner = .step job ∧ s.context.stepOutput? job step name = some text := by
  rw [missingAt?, (Reference.other_of_step? found).2.1, found] at known
  dsimp only at known
  split at known
  · cases known
  · next present =>
    obtain ⟨text, recorded⟩ : ∃ text, (frame.owner.stepsOf?.bind fun job =>
        s.context.stepOutput? job step name) = Option.some text :=
      Option.ne_none_iff_exists'.mp (by simpa using present)
    obtain ⟨job, own, kept⟩ := Option.bind_eq_some_iff.mp recorded
    refine ⟨job, text, ?_, kept⟩
    cases owner : frame.owner with
    | job =>
      rw [owner] at own
      cases own
    | step j =>
      rw [owner] at own
      cases own
      rfl

/-- **Checked expressions.** Whatever gives the values of references and functions, the paths that
evaluating an expression looks up stand in it in the same order, and these are all its references if
no operator may leave out its right operand and a result comes out. Hence a condition whose
references passed the check finds on record each output that it looks up, although more may be asked
and kept on the way. -/
theorem checked_outputs_are_found :
    (∀ (σ : Type) (functions : Functions) (lookup : String → Evaluation σ Operand) (e : Expr)
        (s : σ),
      ∃ visits, (e.evaluate functions (Evaluation.watched lookup)).runFrom (s, []) =
          (((e.evaluate functions lookup).runFrom s).1,
            (((e.evaluate functions lookup).runFrom s).2, visits)) ∧
        (visits.map Visit.path).Sublist e.references ∧
        (e.isStrict = true → ∀ value, ((e.evaluate functions lookup).runFrom s).1 = .ok value →
          visits.map Visit.path = e.references)) ∧
    ∀ (frame : Frame) (e : Expr) (s : Session),
      missing? s.context frame.owner.stepsOf? e = none →
      ∀ visit ∈ ((e.evaluate Functions.builtin (Evaluation.watched (lookup frame))).runFrom
          (s, [])).2.2,
        (∀ needed name, Reference.job? visit.path = some (needed, name) →
          ∃ text, s.context.jobOutput? (.str needed) name = some text ∧
            visit.outcome = .ok (.fresh (.str text))) ∧
        ∀ step name, Reference.step? visit.path = some (step, name) →
          ∃ job text, frame.owner = .step job ∧
            s.context.stepOutput? job step name = some text ∧
            visit.outcome = .ok (.fresh (.str text)) := by
  constructor
  · intro σ functions lookup e s
    obtain ⟨visits, same, -, part, whole⟩ :=
      (@Expr.evaluate_watches σ functions lookup e).follows s []
    exact ⟨visits, same, part, whole⟩
  · intro frame e s known visit member
    obtain ⟨visits, same, made, part, -⟩ :=
      (@Expr.evaluate_watches Session Functions.builtin (lookup frame) e).follows s []
    rw [same] at member
    -- Whatever the visits before it asked and kept, this one finds the outputs of the start.
    have each := (made.keeps (fun visit _ u => lookup_keeps_outputs frame visit.path)
      (⟨rfl, rfl⟩ : s.SameOutputs s)).1
    obtain ⟨outputs, outcome⟩ := each visit member
    have mentioned : visit.path ∈ e.references := part.subset (List.mem_map_of_mem member)
    have present := known_of_missing? known mentioned
    have looked : visit.outcome = ((lookup frame visit.path).perform visit.start).1 := outcome
    constructor
    · intro needed name found
      obtain ⟨text, kept⟩ := exists_jobOutput present found
      exact ⟨text, kept, looked.trans (lookup_finds_job outputs found kept)⟩
    · intro step name found
      obtain ⟨job, text, owner, kept⟩ := exists_stepOutput present found
      exact ⟨job, text, owner, kept, looked.trans (lookup_finds_step outputs owner found kept)⟩

/-- A comparison of what the user tells with an output on record. -/
def compared : Expr :=
  .binary .eq (.reference "github.ref_name") (.reference "needs.build.outputs.version")

def versioned : Session where
  context := { jobs := [(.str "build", [("version", "1.2")])] }
  answers := { texts := ["main"] }

/-- A question is asked before the output is looked up, which is found all the same. -/
theorem checked_outputs_are_found_compared :
    missing? versioned.context none compared = none ∧
      (versioned.asked ((evaluate ⟨[], .job, []⟩ compared).perform versioned).2).length = 1 ∧
      ∃ visits,
        ((compared.evaluate Functions.builtin (Evaluation.watched (lookup ⟨[], .job, []⟩))).runFrom
          (versioned, [])).2.2 = visits ∧
        visits.map Visit.path = ["github.ref_name", "needs.build.outputs.version"] ∧
        ∀ visit ∈ visits, visit.path = "needs.build.outputs.version" →
          visit.outcome = .ok (.fresh (.str "1.2")) := by
  have known : missing? versioned.context none compared = none := by decide +kernel
  obtain ⟨every, checked⟩ := checked_outputs_are_found
  obtain ⟨visits, same, -, whole⟩ :=
    every Session Functions.builtin (lookup ⟨[], .job, []⟩) compared versioned
  refine ⟨known, by decide +kernel, visits, by rw [same], ?_, ?_⟩
  · have result : (((evaluate ⟨[], .job, []⟩ compared).perform versioned).1.toOption.map
        (·.place)) = some none := by decide +kernel
    obtain ⟨operand, given, -⟩ := Option.map_eq_some_iff.mp result
    exact whole rfl operand (congrArg Prod.fst (perform_eq_of_toOption given))
  · intro visit member path
    have visited := checked ⟨[], .job, []⟩ compared versioned known visit (by rwa [same])
    have job : Reference.job? visit.path = some ("build", "version") := by
      rw [path]
      decide +kernel
    obtain ⟨text, recorded, outcome⟩ := visited.1 "build" "version" job
    obtain rfl : "1.2" = text := Option.some.inj recorded
    exact outcome

end Condition
end Rehearsal
