import Rehearsal.Proofs.Condition.Evaluation
import Rehearsal.Proofs.Play.Resolving

/-! A condition comes to a truth value whatever is wrong with it, except that an integer may be too
long or out of range, or that a collection may contain itself. `conditions_are_decided` tells which
values the exceptions come from, and that everything else that goes wrong makes a condition false.
-/

namespace Rehearsal

open Play Expression

namespace Condition

/-- The text of the expression of a condition; none for a constant condition and a blank one. -/
def expressionText? : Value → Option (List Char)
  | .null => none
  | .bool _ => none
  | condition =>
    match condition.plain with
    | .ok plain => some (Text.trim plain.toList) |>.filter (!·.isEmpty)
    | .error _ => none

/-- The expressions that are read for a condition: those in its quoted texts, and then its own. -/
inductive Reads (frame : Frame) (text : List Char) (s : Session) : Expr → Prop
  | inside {literal placeholder : List Char} {e : Expr}
    (quoted : .found literal ∈ Text.cut Quoted.length? text)
    (placed : .found placeholder ∈ Text.cut Placeholder.length? literal)
    (read : Expression.parse (String.ofList (Placeholder.expression placeholder)) = .ok e) :
    Reads frame text s e
  | whole {e : Expr} (read : ((expression frame text).perform s).1 = .ok e) : Reads frame text s e

/-- A fault that comes up while a condition is read, checked or evaluated. -/
inductive Meets (frame : Frame) (text : List Char) (s : Session) : Fault → Prop
  | reading {fault : Fault} {t : Session}
    (ends : (expression frame text).perform s = (.error fault, t)) : Meets frame text s fault
  | missing {e : Expr} {t : Session} {output : MissingOutput}
    (read : (expression frame text).perform s = (.ok e, t))
    (unknown : missing? t.context frame.owner.stepsOf? e = some output) :
    Meets frame text s (.evaluation (.missingOutput output))
  | evaluating {e : Expr} {t u : Session} {fault : Fault}
    (read : (expression frame text).perform s = (.ok e, t))
    (known : missing? t.context frame.owner.stepsOf? e = none)
    (ends : (evaluate frame e).perform t = (.error fault, u)) : Meets frame text s fault

def Outer (Flaw : Unfit → Prop) (fault : Fault) : Prop :=
  ∃ u, fault = .unfit u ∧ u ≠ .noJson ∧ Flaw u

theorem outer_of_inner {Flaw : Unfit → Prop} {fault : Fault} (inner : fault.Inner Flaw)
    (ends : fault.failsCondition ≠ true) : Outer Flaw fault := by
  rcases inner with fails | ⟨u, rfl, own⟩
  · exact absurd fails ends
  · refine ⟨u, rfl, ?_, own⟩
    rintro rfl
    exact ends rfl

variable {Fit : Session → Prop} {Flaw : Unfit → Prop} {frame : Frame}

/-! ### The parts of a decision -/

theorem lookup_evaluates (supplied : Supplied Fit (Fault.Inner Flaw) Flaw frame.workflow)
    (bindings : ∀ entry ∈ frame.matrix, entry.2.Sound Flaw) (path : String) :
    Expr.Evaluates Fit Flaw (lookup frame path) := by
  have output (o : Option String) : (recorded o).value.Sound Flaw := by
    cases o with
    | none => exact .null
    | some text => exact .str text
  refine .bind .get fun s _ => ?_
  extract_lets context resolved bound
  have resolves : Expr.Evaluates Fit Flaw (resolved ()) := by
    dsimp only [resolved]
    split
    · exact .bind (supplied.resolve _) fun _ _ => .pure (.str _)
    · exact .throw (.inl rfl)
  have binds : Expr.Evaluates Fit Flaw (bound ()) := by
    dsimp only [bound]
    split
    · split
      · next value found =>
        obtain ⟨key, member, -⟩ := Table.mem_of_find?_eq_some found
        exact .pure (bindings _ member)
      · exact resolves
    · exact resolves
  split
  · exact .pure (.str _)
  · split
    · exact .pure (output _)
    · split
      · split
        · exact .pure (output _)
        · exact binds
      · exact binds

theorem evaluate_evaluates (supplied : Supplied Fit (Fault.Inner Flaw) Flaw frame.workflow)
    (bindings : ∀ entry ∈ frame.matrix, entry.2.Sound Flaw) {e : Expr} (modest : e.Modest)
    (vast : e.calls "fromJSON" = true → Flaw .integerOutOfRange) :
    Expr.Evaluates Fit Flaw (evaluate frame e) :=
  Expr.evaluate_evaluates (lookup_evaluates supplied bindings) modest vast

theorem parsed_yields (text : List Char) :
    Yields Fit (Fault.Inner Flaw)
      (fun e => e.Modest ∧ Expression.parse (String.ofList text) = .ok e) (parsed text) := by
  unfold parsed
  split
  · next e read => exact .pure ⟨parse_modest read, read⟩
  · exact .throw (.inl rfl)

theorem spliced_yields (supplied : Supplied Fit (Fault.Inner Flaw) Flaw frame.workflow)
    (bindings : ∀ entry ∈ frame.matrix, entry.2.Sound Flaw) (quote : Option Char)
    {placeholder : List Char}
    (vast : ∀ e, Expression.parse (String.ofList (Placeholder.expression placeholder)) = .ok e →
      e.calls "fromJSON" = true → Flaw .integerOutOfRange) :
    Yields Fit (Fault.Inner Flaw) (fun _ => True) (spliced frame quote placeholder) := by
  refine .bind (parsed_yields _) fun e read => .bind .get fun s _ => ?_
  dsimp only
  split
  · exact .throw (.inl rfl)
  · have evaluates := evaluate_evaluates supplied bindings read.1 (vast e read.2)
    refine .bind evaluates fun value sound => ?_
    exact .bind_fit (fun u failed =>
      .flaw (sound.within u (Value.hasFlaw_of_expressionText failed))) fun text _ => .pure trivial

theorem replaceEach_yields {f : List Char → Play (List Char)} {pieces : List Text.Piece}
    (each : ∀ s, .found s ∈ pieces → Yields Fit (Fault.Inner Flaw) (fun _ => True) (f s)) :
    Yields Fit (Fault.Inner Flaw) (fun _ => True) (replaceEach f pieces) := by
  induction pieces with
  | nil => exact .pure trivial
  | cons piece rest ih =>
    have others := ih fun s member => each s (List.mem_cons_of_mem _ member)
    cases piece with
    | plain c => exact .bind others fun _ _ => .pure trivial
    | found s =>
      exact .bind (each s List.mem_cons_self) fun _ _ => .bind others fun _ _ => .pure trivial

theorem expression_yields (supplied : Supplied Fit (Fault.Inner Flaw) Flaw frame.workflow)
    (bindings : ∀ entry ∈ frame.matrix, entry.2.Sound Flaw) {text : List Char} {s : Session}
    (vast : ∀ e, Reads frame text s e → e.calls "fromJSON" = true → Flaw .integerOutOfRange) :
    Yields Fit (Fault.Inner Flaw) Expr.Modest (expression frame text) := by
  refine .bind
    (replaceEach_yields fun literal quoted => replaceEach_yields fun placeholder placed => ?_)
    fun spliced _ => ?_
  · exact spliced_yields supplied bindings _ fun e read => vast e (.inside quoted placed read)
  · exact (parsed_yields _).mono (fun e read => read.1) fun _ => id

theorem attempt_yields (steady : Steady Fit) (frame : Frame) (text : List Char) {α : Type}
    {Result : α → Prop} {part : Play α} (yields : Yields Fit (Fault.Inner Flaw) Result part) :
    Yields Fit (Outer Flaw) (fun found => ∀ a, found = some a → Result a)
      (attempt frame text part) := by
  refine .tryCatch (.map yields fun a result b same => ?_) fun fault inner => ?_
  · cases same
    exact result
  · split
    · exact .bind (steady.warning _) fun _ _ => .pure nofun
    · next ends => exact .throw (outer_of_inner inner ends)

/-! ### The decision -/

theorem decideExpr_yields (supplied : Supplied Fit (Fault.Inner Flaw) Flaw frame.workflow)
    (bindings : ∀ entry ∈ frame.matrix, entry.2.Sound Flaw) (text : List Char) {e : Expr}
    (modest : e.Modest) (vast : e.calls "fromJSON" = true → Flaw .integerOutOfRange) :
    Yields Fit (Outer Flaw) (fun _ => True) (decideExpr frame text e) := by
  refine .bind .get fun s _ => ?_
  split
  · exact .bind (supplied.steady.warning _) fun _ _ => .pure trivial
  · have evaluates := evaluate_evaluates supplied bindings modest vast
    refine .bind (attempt_yields supplied.steady frame text evaluates) fun value sound => ?_
    cases value with
    | none => exact .pure trivial
    | some operand =>
      refine .fit (fun _ _ => trivial) fun u failed => ⟨u, rfl, ?_, ?_⟩
      · obtain ⟨rfl, -⟩ := Value.truthy_eq_error failed
        exact nofun
      · exact (sound operand rfl).truthy failed

/-- What the expression calls is known only when its text has been put together, so this is about
one session. -/
theorem decideText_ends (supplied : Supplied Fit (Fault.Inner Flaw) Flaw frame.workflow)
    (bindings : ∀ entry ∈ frame.matrix, entry.2.Sound Flaw) {text : List Char} {s : Session}
    (vast : ∀ e, Reads frame text s e → e.calls "fromJSON" = true → Flaw .integerOutOfRange)
    (fit : Fit s) :
    Fit ((decideText frame text).perform s).2 ∧
      Ends (Outer Flaw) (fun _ => True) ((decideText frame text).perform s).1 := by
  have reads := attempt_yields supplied.steady frame text (expression_yields supplied bindings vast)
  obtain ⟨still, ends⟩ := reads.outcome s fit
  unfold decideText
  rw [perform_bind]
  cases performed : (attempt frame text (expression frame text)).perform s with
  | mk outcome t =>
    rw [performed] at still ends
    cases outcome with
    | error fault => exact ⟨still, ends⟩
    | ok found =>
      cases found with
      | none => exact ⟨still, trivial⟩
      | some e =>
        have read := perform_attempt_cases performed
        have known : e.calls "fromJSON" = true → Flaw .integerOutOfRange :=
          vast e (.whole (by rw [read]))
        exact (decideExpr_yields supplied bindings text (ends e rfl) known).outcome t still

theorem decideText_of_meets {text : List Char} {s : Session} {fault : Fault}
    (meets : Meets frame text s fault) :
    ((decideText frame text).perform s).1 =
      if fault.failsCondition then .ok false else .error fault := by
  unfold decideText
  rw [perform_bind]
  cases meets with
  | reading ends =>
    obtain ⟨u, failed⟩ := perform_attempt_error ends
    rw [failed]
    cases fault.failsCondition <;> rfl
  | missing read unknown =>
    rw [perform_attempt_ok read]
    dsimp only
    rw [decideExpr, perform_get_bind, unknown]
    dsimp only
    rw [warning, perform_bind_ok (perform_log ..)]
    rfl
  | evaluating read known ends =>
    obtain ⟨u, failed⟩ := perform_attempt_error ends
    rw [perform_attempt_ok read]
    dsimp only
    rw [decideExpr, perform_get_bind, known]
    dsimp only
    rw [perform_bind, failed]
    cases fault.failsCondition <;> rfl

theorem expressionText?_isSome {condition : Value} {plain : String}
    (absent : condition ≠ .null) (constant : ∀ b, condition ≠ .bool b)
    (written : condition.plain = .ok plain) (nonempty : Text.trim plain.toList ≠ []) :
    (expressionText? condition).isSome = true := by
  unfold expressionText?
  split
  · exact absurd rfl absent
  · exact absurd rfl (constant _)
  · simp [written, nonempty]

theorem perform_holds_of_text {condition : Value} {text : List Char}
    (stated : expressionText? condition = some text) (s : Session) :
    (holds frame condition).perform s = (decideText frame text).perform s := by
  unfold holds
  split
  · cases stated
  · cases stated
  · next absent constant =>
    unfold expressionText? at stated
    split at stated
    · exact absurd rfl absent
    · exact absurd rfl (constant _)
    · split at stated
      · next plain written =>
        obtain ⟨same, nonempty⟩ := Option.filter_eq_some_iff.mp stated
        rw [written, perform_bind_ok (perform_fit ..)]
        split
        · next blank =>
          rw [← Option.some.inj same, blank] at nonempty
          cases nonempty
        · rw [← Option.some.inj same]
      · cases stated

theorem holds_ends (supplied : Supplied Fit (Fault.Inner Flaw) Flaw frame.workflow)
    (bindings : ∀ entry ∈ frame.matrix, entry.2.Sound Flaw) {condition : Value}
    (within : condition.Within Flaw) {s : Session}
    (vast : ∀ text e, expressionText? condition = some text → Reads frame text s e →
      e.calls "fromJSON" = true → Flaw .integerOutOfRange)
    (fit : Fit s) :
    Fit ((holds frame condition).perform s).2 ∧
      Ends (Outer Flaw) (fun _ => True) ((holds frame condition).perform s).1 := by
  cases stated : expressionText? condition with
  | some text =>
    rw [perform_holds_of_text stated]
    exact decideText_ends supplied bindings (fun e => vast text e stated) fit
  | none =>
    unfold holds
    split
    · exact ⟨fit, trivial⟩
    · exact ⟨fit, trivial⟩
    · next absent constant =>
      rw [perform_bind, perform_fit]
      cases written : condition.plain with
      | error u =>
        obtain ⟨rfl, long⟩ := Value.isLong_of_plain written
        exact ⟨fit, _, rfl, nofun, within _ long⟩
      | ok plain =>
        simp only [orUnfit]
        split
        · exact ⟨fit, trivial⟩
        · next text nonempty =>
          have some := expressionText?_isSome (fun same => absent same)
            (fun b same => constant b same) written (fun empty => nonempty empty)
          rw [stated] at some
          cases some

/-! ### Every condition -/

/-- The values that the decision of a condition can bring into a text. -/
def given (frame : Frame) (condition : Value) : List Value :=
  [condition, (Table.find? (.str "env") frame.workflow).getD .null, .map frame.matrix]

/-- What may keep a condition from having a truth value: a part of a given value that has no text,
or an integer out of range, which is bound in the matrix or may be read from JSON. -/
inductive Flawed (frame : Frame) (condition : Value) (s : Session) : Unfit → Prop
  | unwritten {u : Unfit} {v : Value} (part : v ∈ given frame condition)
    (flaw : v.hasFlaw u = true) (other : u ≠ .noJson) : Flawed frame condition s u
  | bound {entry : Scalar × Value} {i : Int} (bound : entry ∈ frame.matrix)
    (integer : entry.2 = .int i) (vast : Double.ofInt? i = none) :
    Flawed frame condition s .integerOutOfRange
  | read {text : List Char} {e : Expr} (stated : expressionText? condition = some text)
    (reads : Reads frame text s e) (calls : e.calls "fromJSON" = true) :
    Flawed frame condition s .integerOutOfRange

def Tolerated (frame : Frame) (condition : Value) (s : Session) (u : Unfit) : Prop :=
  u = .noJson ∨ Flawed frame condition s u

theorem given_within {condition : Value} {s : Session} {v : Value}
    (part : v ∈ given frame condition) : v.Within (Tolerated frame condition s) := by
  intro u flaw
  by_cases same : u = .noJson
  · exact .inl same
  · exact .inr (.unwritten part flaw same)

theorem environmentValue?_eq_error {workflow : Mapping} {name : String} {fault : Fault}
    (failed : environmentValue? workflow name = .error fault) : fault = .wrongKind := by
  unfold environmentValue? at failed
  split at failed
  · cases failed
  · split at failed
    · cases failed
    · dsimp only at failed
      split at failed
      · cases failed
      · cases failed
        rfl

theorem tolerated_supplied (frame : Frame) (condition : Value) (s : Session) :
    Supplied (fun t => t.answers.Readable) (Fault.Inner (Tolerated frame condition s))
      (Tolerated frame condition s) frame.workflow where
  steady := steady_readable
  tolerates _ own := .flaw own
  within := given_within (by simp [given])
  searched _ _ failed := by
    rw [environmentValue?_eq_error failed]
    exact .inl rfl

/-- **Conditions are decided.** As long as answers are readable, a condition comes to a truth value
or to a flaw of what it is decided from; and a fault that comes up on the way makes it false or is
such a flaw. -/
theorem conditions_are_decided (frame : Frame) (condition : Value) {s : Session}
    (readable : s.answers.Readable) :
    ((∃ b, ((holds frame condition).perform s).1 = .ok b) ∨
      ∃ u, ((holds frame condition).perform s).1 = .error (.unfit u) ∧
        Flawed frame condition s u) ∧
    ∀ text fault, expressionText? condition = some text → Meets frame text s fault →
      ((holds frame condition).perform s).1 = .ok false ∨
        ∃ u, fault = .unfit u ∧ ((holds frame condition).perform s).1 = .error fault ∧
          Flawed frame condition s u := by
  have bindings : ∀ entry ∈ frame.matrix, entry.2.Sound (Tolerated frame condition s) := by
    intro entry member
    have matrix : (Value.map frame.matrix).Within (Tolerated frame condition s) :=
      given_within (by simp [given])
    exact ⟨matrix.entry member, fun i integer vast => .inr (.bound member integer vast)⟩
  have ends := (holds_ends (tolerated_supplied frame condition s) bindings
    (given_within (by simp [given]))
    (fun text e stated reads calls => .inr (.read stated reads calls)) readable).2
  have flawed {fault : Fault} (failed : ((holds frame condition).perform s).1 = .error fault) :
      ∃ u, fault = .unfit u ∧ Flawed frame condition s u := by
    rw [failed] at ends
    obtain ⟨u, same, other, own⟩ := ends
    exact ⟨u, same, own.resolve_left other⟩
  constructor
  · cases outcome : ((holds frame condition).perform s).1 with
    | ok b => exact .inl ⟨b, rfl⟩
    | error fault =>
      obtain ⟨u, rfl, own⟩ := flawed outcome
      exact .inr ⟨u, rfl, own⟩
  · intro text fault stated meets
    have outcome := decideText_of_meets meets
    rw [← perform_holds_of_text stated] at outcome
    split at outcome
    · exact .inl outcome
    · obtain ⟨u, same, own⟩ := flawed outcome
      exact .inr ⟨u, same, outcome, own⟩

def boundFrame (value : Value) : Frame := ⟨[], .job, [(.str "n", value)]⟩

def unfinished : List Char := "matrix.n <".toList

theorem unfinished_meets :
    ∃ fault, Meets (boundFrame (.int 1)) unfinished {} fault ∧ fault.failsCondition = true := by
  let reading := expression (boundFrame (.int 1)) unfinished
  have refused : ((attempt (boundFrame (.int 1)) unfinished reading).perform {}).1.toOption.map
      (·.isNone) = some true := by decide +kernel
  cases performed : reading.perform {} with
  | mk outcome t =>
    cases outcome with
    | ok e =>
      rw [perform_attempt_ok performed] at refused
      cases refused
    | error fault =>
      refine ⟨fault, .reading performed, ?_⟩
      obtain ⟨u, failed⟩ := perform_attempt_error performed
      rw [failed] at refused
      cases fails : fault.failsCondition with
      | true => rfl
      | false =>
        rw [fails] at refused
        cases refused

theorem conditions_are_decided_unfinished :
    ((holds (boundFrame (.int 1)) (.str (String.ofList unfinished))).perform {}).1 =
      .ok false := by
  obtain ⟨fault, meets, fails⟩ := unfinished_meets
  have stated : expressionText? (.str (String.ofList unfinished)) = some unfinished := by
    decide +kernel
  have readable : ({} : Session).answers.Readable := fun _ member => nomatch member
  have decided := conditions_are_decided (boundFrame (.int 1)) (.str (String.ofList unfinished))
    readable
  rcases decided.2 _ _ stated meets with outcome | ⟨u, rfl, -, flawed⟩
  · exact outcome
  · cases flawed with
    | unwritten part flaw other =>
      cases u with
      | noJson => exact absurd rfl other
      | _ => cases fails
    | bound | read => cases fails

/-- An integer out of range keeps a condition from being decided. -/
theorem undecided_out_of_range :
    ((holds (boundFrame (.int (Int.pow 10 400))) (.str "matrix.n")).perform {}).1.toOption =
      none := by
  decide +kernel

end Condition
end Rehearsal
