import Rehearsal.Proofs.Condition.Unrecorded
import Rehearsal.Proofs.Variable.StepOutput

/-! Commands, outputs of jobs and conditions see the same of an output of a step: the value that is
on record for their job. If none is, commands and outputs ask for one, and a condition is not true:
`Session.sees`. -/

namespace Rehearsal

open Play

namespace Condition

variable {frame : Frame} {path id name : String} {s : Session}

theorem perform_lookup_of_job? {needed name : String}
    (found : Reference.job? path = some (needed, name)) (s : Session) :
    (lookup frame path).perform s =
      (.ok (recorded (s.context.jobOutput? (.str needed) name)), s) := by
  rw [lookup, perform_get_bind]
  simp only [Reference.isJobResult_of_job? found, Bool.false_eq_true, if_false, found]
  rfl

theorem perform_lookup_of_step? {job : Scalar} (owner : frame.owner = .step job)
    (found : Reference.step? path = some (id, name)) (s : Session) :
    (lookup frame path).perform s =
      (.ok (recorded (s.context.stepOutput? job id name)), s) := by
  obtain ⟨-, other, result⟩ := Reference.other_of_step? found
  rw [lookup, perform_get_bind]
  simp only [result, Bool.false_eq_true, if_false, other, owner, Owner.stepsOf?, found]
  rfl

theorem missingAt?_of_step? {context : Context} {job : Scalar}
    (found : Reference.step? path = some (id, name))
    (unknown : context.stepOutput? job id name = none) {owner : Option Scalar}
    (own : ∀ j, owner = some j → j = job) :
    (missingAt? context owner path).isSome = true := by
  have absent : (owner.bind fun j => context.stepOutput? j id name) = none := by
    refine Option.bind_eq_none_iff.mpr fun j same => ?_
    rw [own j same, unknown]
  rw [missingAt?, (Reference.other_of_step? found).2.1, found]
  simp [absent]

theorem fails_of_unknown {job : Scalar} {condition : Value} {text : List Char} {e : Expr}
    (unknown : s.context.stepOutput? job id name = none)
    (own : ∀ j, frame.owner.stepsOf? = some j → j = job)
    (stated : expressionText? condition = some text) (reads : Reads frame text s e)
    (mentioned : path ∈ e.references) (found : Reference.step? path = some (id, name)) :
    ((holds frame condition).perform s).1 ≠ .ok true ∧
      (((expression frame text).perform s).1 = .ok e →
        ((holds frame condition).perform s).1 = .ok false) := by
  have missing {u : Session} (same : s.SameOutputs u) :
      ∃ output, missing? u.context frame.owner.stepsOf? e = some output := by
    have absent : u.context.stepOutput? job id name = none := by
      rw [Context.stepOutput?, same.steps]
      exact unknown
    refine Option.isSome_iff_exists.mp ?_
    exact List.findSome?_isSome_iff.mpr ⟨path, mentioned, missingAt?_of_step? found absent own⟩
  rw [perform_holds_of_text stated]
  constructor
  · intro decided
    obtain ⟨u, same, known⟩ := known_of_decideText reads
      (Prod.ext decided rfl : _ = (_, ((decideText frame text).perform s).2))
    obtain ⟨output, absent⟩ := missing same
    rw [known] at absent
    cases absent
  · intro read
    have performed : (expression frame text).perform s =
        (.ok e, ((expression frame text).perform s).2) := Prod.ext read rfl
    obtain ⟨output, absent⟩ := missing ((expression_inquires frame text).sameOutputs performed)
    exact decideText_of_meets (.missing performed absent)

end Condition

/-- What commands, outputs of a job and conditions see of an output of a step of which this value is
known. -/
structure Session.Sees (s : Session) (job : Scalar) (id name : String) (known : Option String) :
    Prop where
  command : ∀ scope expression, scope.job = job → Reference.step? expression = some (id, name) →
    Finds known expression (substitute scope expression) s
  output : ∀ scope value text, scope.job = job → value.expressionText = .ok text →
    Reference.stepPlaceholder? text = some (id, name) →
      Finds known text (resolveJobOutput scope value) s
  condition : ∀ frame path, frame.owner = .step job → Reference.step? path = some (id, name) →
    (Condition.lookup frame path).perform s = (.ok (Condition.recorded known), s)
  /-- A condition of the job or of one of its steps is not true if it mentions an output of which
  nothing is known. -/
  unknown : known = none → ∀ frame condition text e path,
    (∀ j, frame.owner.stepsOf? = some j → j = job) →
    Condition.expressionText? condition = some text → Condition.Reads frame text s e →
    path ∈ e.references → Reference.step? path = some (id, name) →
      ((Condition.holds frame condition).perform s).1 ≠ .ok true ∧
        (((Condition.expression frame text).perform s).1 = .ok e →
          ((Condition.holds frame condition).perform s).1 = .ok false)

theorem Session.sees (s : Session) (job : Scalar) (id name : String) :
    s.Sees job id name (s.context.stepOutput? job id name) where
  command := by
    rintro scope expression rfl found
    exact finds_of_substitute scope found s
  output := by
    rintro scope value text rfl stated found
    exact finds_of_resolveJobOutput scope stated found s
  condition frame path owner found := Condition.perform_lookup_of_step? owner found s
  unknown unknown frame condition text e path own stated reads mentioned found :=
    Condition.fails_of_unknown unknown own stated reads mentioned found

end Rehearsal
