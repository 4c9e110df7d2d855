import Rehearsal.Proofs.Condition.Decided
import Rehearsal.Proofs.Variable.Reference

/-! A condition that mentions an output which was not recorded is not true, wherever in its text the
output is mentioned: `unrecorded_outputs_fail`. -/

namespace Rehearsal

namespace Condition

open Play Expression

/-- A reference to an output that is not on record. The owner of the output is one part of a path,
while its name may have several; to the condition of a job no output of a step is on record. -/
inductive Unrecorded (context : Context) (job : Option Scalar) : String → Prop
  | ofJob {needed name : String} (whole : '.' ∉ needed.toList)
      (unknown : context.jobOutput? (.str needed) name = none) :
      Unrecorded context job ("needs." ++ needed ++ ".outputs." ++ name)
  | ofStep {step name : String} (whole : '.' ∉ step.toList)
      (unknown : ∀ j, job = some j → context.stepOutput? j step name = none) :
      Unrecorded context job ("steps." ++ step ++ ".outputs." ++ name)

variable {frame : Frame} {context : Context} {job : Option Scalar} {path : String} {e : Expr}
  {s t : Session}

theorem Unrecorded.of_sameOutputs (unknown : Unrecorded s.context job path)
    (same : s.SameOutputs t) : Unrecorded t.context job path := by
  cases unknown with
  | ofJob whole unknown =>
    exact .ofJob whole ((same.jobOutput? ..).trans unknown)
  | ofStep whole unknown =>
    exact .ofStep whole fun j own => (same.stepOutput? ..).trans (unknown j own)

theorem Unrecorded.missingAt? (unknown : Unrecorded context job path)
    (shape : IsPath path.toList) : (Condition.missingAt? context job path).isSome = true := by
  cases unknown with
  | @ofJob needed name whole unknown =>
    have owned : Reference.job? ("needs." ++ needed ++ ".outputs." ++ name) = some (needed, name) :=
      @Reference.output?_of_isPath "needs" needed name whole shape
    rw [Condition.missingAt?, owned]
    simp [unknown]
  | @ofStep step name whole unknown =>
    have owned : Reference.step? ("steps." ++ step ++ ".outputs." ++ name) = some (step, name) :=
      @Reference.output?_of_isPath "steps" step name whole shape
    have other : Reference.job? ("steps." ++ step ++ ".outputs." ++ name) = none := by
      simp [Reference.job?, Reference.output?, Text.after?]
    have absent : (job.bind fun j => context.stepOutput? j step name) = none :=
      Option.bind_eq_none_iff.mpr unknown
    rw [Condition.missingAt?, other, owned]
    simp [absent]

theorem Unrecorded.missing? (unknown : Unrecorded context job path) {text : String}
    (read : Expression.parse text = .ok e) (mentioned : path ∈ e.references) :
    ∃ output, Condition.missing? context job e = some output := by
  have found := unknown.missingAt? (references_of_parse read path mentioned)
  refine Option.isSome_iff_exists.mp ?_
  exact List.findSome?_isSome_iff.mpr ⟨path, mentioned, found⟩

/-! ### Reading a condition -/

theorem perform_of_replaceEach {f : List Char → Play (List Char)} {pieces : List Text.Piece}
    {result : List Char} (inquires : ∀ piece, Does Deed.Inquires (f piece))
    (performed : (replaceEach f pieces).perform s = (.ok result, t)) :
    ∀ piece, .found piece ∈ pieces →
      ∃ u replacement v, s.SameOutputs u ∧ (f piece).perform u = (.ok replacement, v) := by
  induction pieces generalizing s t result with
  | nil => nofun
  | cons first rest ih =>
    intro piece member
    rw [replaceEach.eq_def] at performed
    cases first with
    | plain c =>
      obtain ⟨others, u, replaced, -⟩ := perform_bind_eq_ok performed
      refine ih replaced piece ?_
      simpa using member
    | found own =>
      obtain ⟨replacement, u, replaced, further⟩ := perform_bind_eq_ok performed
      obtain ⟨others, v, more, -⟩ := perform_bind_eq_ok further
      rcases List.mem_cons.mp member with same | member
      · cases same
        exact ⟨s, replacement, u, ⟨rfl, rfl⟩, replaced⟩
      · obtain ⟨w, replacement, x, same, later⟩ := ih more piece member
        exact ⟨w, replacement, x, ((inquires own).sameOutputs replaced).trans same, later⟩

/-- A placeholder in a quoted text mentions only outputs that are on record if it was replaced. -/
theorem missing?_of_spliced {quote : Option Char} {placeholder result : List Char}
    (read : Expression.parse (String.ofList (Placeholder.expression placeholder)) = .ok e)
    (performed : (spliced frame quote placeholder).perform s = (.ok result, t)) :
    Condition.missing? s.context frame.owner.stepsOf? e = none := by
  unfold spliced parsed at performed
  rw [read] at performed
  obtain ⟨own, u, same, further⟩ := perform_bind_eq_ok performed
  cases same
  rw [perform_get_bind] at further
  dsimp only at further
  split at further
  · cases further
  · next other => exact Option.eq_none_iff_forall_ne_some.mpr fun output same => other output same

theorem Reads.parse {text : List Char} (reads : Reads frame text s e) :
    ∃ written, Expression.parse written = .ok e := by
  cases reads with
  | inside quoted placed read => exact ⟨_, read⟩
  | whole read =>
    exact parse_of_expression (Prod.ext read rfl : _ = (_, ((expression frame text).perform s).2))

theorem known_of_quoted {text literal placeholder : List Char} {whole : Expr}
    (quoted : .found literal ∈ Text.cut Quoted.length? text)
    (placed : .found placeholder ∈ Text.cut Placeholder.length? literal)
    (read : Expression.parse (String.ofList (Placeholder.expression placeholder)) = .ok e)
    (performed : (expression frame text).perform s = (.ok whole, t)) :
    ∃ u, s.SameOutputs u ∧ Condition.missing? u.context frame.owner.stepsOf? e = none := by
  obtain ⟨spliced, v, replaced, -⟩ := perform_bind_eq_ok performed
  have inquires (literal : List Char) : Does Deed.Inquires (replaceEach
      (Condition.spliced frame literal.head?) (Text.cut Placeholder.length? literal)) :=
    (replaceEach_consults (spliced_consults .all frame _) _).inquires
  obtain ⟨w, filled, x, before, inner⟩ := perform_of_replaceEach inquires replaced _ quoted
  obtain ⟨y, own, z, again, last⟩ :=
    perform_of_replaceEach (spliced_inquires frame _) inner _ placed
  exact ⟨y, before.trans again, missing?_of_spliced read last⟩

/-- If a condition is true, every expression that is read for it mentions only outputs that are on
record. -/
theorem known_of_decideText {text : List Char} (reads : Reads frame text s e)
    (decided : (decideText frame text).perform s = (.ok true, t)) :
    ∃ u, s.SameOutputs u ∧ Condition.missing? u.context frame.owner.stepsOf? e = none := by
  obtain ⟨found, u, attempted, further⟩ := perform_bind_eq_ok decided
  cases found with
  | none => cases further
  | some own =>
    have performed := perform_attempt_cases attempted
    cases reads with
    | whole read =>
      obtain rfl : own = e := Except.ok.inj ((congrArg Prod.fst performed).symm.trans read)
      refine ⟨u, (expression_inquires frame text).sameOutputs performed, ?_⟩
      dsimp only at further
      rw [decideExpr, perform_get_bind] at further
      cases missing : Condition.missing? u.context frame.owner.stepsOf? own with
      | none => rfl
      | some output =>
        rw [missing] at further
        obtain ⟨-, v, -, more⟩ := perform_bind_eq_ok further
        cases more
    | inside quoted placed read => exact known_of_quoted quoted placed read performed

/-- **Unknown outputs.** A condition is not true if an expression that is read for it, in a quoted
text or as a whole, mentions an output that is not on record. If it is the whole expression, the
condition is false. -/
theorem unrecorded_outputs_fail {condition : Value} {text : List Char}
    (stated : expressionText? condition = some text) (reads : Reads frame text s e)
    (mentioned : path ∈ e.references)
    (unknown : Unrecorded s.context frame.owner.stepsOf? path) :
    ((holds frame condition).perform s).1 ≠ .ok true ∧
      (((expression frame text).perform s).1 = .ok e →
        ((holds frame condition).perform s).1 = .ok false) := by
  obtain ⟨written, parsed⟩ := reads.parse
  rw [perform_holds_of_text stated]
  constructor
  · intro decided
    obtain ⟨u, same, known⟩ := known_of_decideText reads
      (Prod.ext decided rfl : _ = (_, ((decideText frame text).perform s).2))
    obtain ⟨output, missing⟩ := (unknown.of_sameOutputs same).missing? parsed mentioned
    rw [known] at missing
    cases missing
  · intro read
    have performed : (expression frame text).perform s =
        (.ok e, ((expression frame text).perform s).2) :=
      Prod.ext read rfl
    have same := (expression_inquires frame text).sameOutputs performed
    obtain ⟨output, missing⟩ := (unknown.of_sameOutputs same).missing? parsed mentioned
    exact decideText_of_meets (.missing performed missing)

/-- A condition of a job that holds whatever comes of its second operand. -/
def guarded : List Char := "always() || needs.build.outputs.version == '1'".toList

/-- The operand that is not needed is not on record, so the condition is false. -/
theorem unrecorded_outputs_fail_guarded :
    ((holds ⟨[], .job, []⟩ (.str (String.ofList guarded))).perform {}).1 = .ok false := by
  have stated : expressionText? (.str (String.ofList guarded)) = some guarded := by decide +kernel
  have read : (((expression ⟨[], .job, []⟩ guarded).perform {}).1.toOption.map
      (·.references)) = some ["needs.build.outputs.version"] := by decide +kernel
  obtain ⟨e, parsed, references⟩ := Option.map_eq_some_iff.mp read
  have whole : ((expression ⟨[], .job, []⟩ guarded).perform {}).1 = .ok e := by
    rw [perform_eq_of_toOption parsed]
  have unknown : Unrecorded ({} : Session).context none
      ("needs." ++ "build" ++ ".outputs." ++ "version") := .ofJob (by decide) rfl
  exact (unrecorded_outputs_fail stated (.whole whole) (references ▸ List.mem_singleton.mpr rfl)
    unknown).2 whole

end Condition
end Rehearsal
