import Rehearsal.Proofs.Condition.Early
import Rehearsal.Proofs.Variable.Decoded
import Rehearsal.Proofs.Variable.Known

/-! What a condition asked for is kept, so that it is not asked again when the condition is decided
a second time: `conditions_are_idempotent`. That holds of each part of the decision (`Replays`):
with the values that were kept it comes to the same result, and changes nothing. A fault that makes
a condition false comes up again as long as nothing more is kept. -/

namespace Rehearsal

open Play

/-- That a session comes after another one in which values were found: what was kept still is, and
the outputs on record are the same. -/
structure Session.Grown (s t : Session) : Prop where
  recalled : s.Recalled t
  outputs : s.SameOutputs t

namespace Session.Grown

variable {s t u : Session}

theorem refl (s : Session) : s.Grown s := ⟨.refl s, rfl, rfl⟩

theorem trans (first : s.Grown t) (rest : t.Grown u) : s.Grown u :=
  ⟨first.recalled.trans rest.recalled, first.outputs.trans rest.outputs⟩

theorem of_context (same : t.context = s.context) : s.Grown t :=
  ⟨Session.recalled_of_resolved (by rw [same]), by rw [same], by rw [same]⟩

end Session.Grown

/-- That a play does the same again. If it came to a result, it comes to that with all that is kept
afterwards, and then changes nothing; if it ended with a fault of a condition, it does so as long as
no more is kept. -/
structure Replays {α : Type} (play : Play α) : Prop where
  grows : ∀ {s t result}, play.perform s = (result, t) → s.Grown t
  again : ∀ {s t u a}, play.perform s = (.ok a, t) → t.Grown u → play.perform u = (.ok a, u)
  fails : ∀ {s t u fault}, play.perform s = (.error fault, t) → fault.failsCondition = true →
    u.context = t.context → play.perform u = (.error fault, u)

namespace Replays

variable {α β : Type}

theorem of_constant {play : Play α} (result : Except Fault α)
    (performed : ∀ s, play.perform s = (result, s)) : Replays play where
  grows {s t own} first := by
    rw [performed] at first
    cases first
    exact .refl s
  again {s t u a} first _ := by
    rw [performed] at first ⊢
    cases first
    rfl
  fails {s t u fault} first _ _ := by
    rw [performed] at first ⊢
    cases first
    rfl

theorem pure (a : α) : Replays (Pure.pure a : Play α) := of_constant (.ok a) fun _ => rfl

theorem throw (fault : Fault) : Replays (MonadExcept.throw fault : Play α) :=
  of_constant (.error fault) fun _ => rfl

theorem adopt (result : Except Fault α) : Replays (Play.adopt result) :=
  of_constant result fun s => perform_adopt result s

theorem fit (result : Except Unfit α) : Replays (Play.fit result) := adopt _

theorem congr {play other : Play α} (replays : Replays other)
    (same : ∀ s, play.perform s = other.perform s) : Replays play where
  grows first := replays.grows (same _ ▸ first)
  again first grown := (same _).trans (replays.again (same _ ▸ first) grown)
  fails first fails kept := (same _).trans (replays.fails (same _ ▸ first) fails kept)

theorem bind {play : Play α} {next : α → Play β} (first : Replays play)
    (rest : ∀ a, Replays (next a)) : Replays (play >>= next) where
  grows {s t result} performed := by
    rcases perform_bind_cases performed with ⟨fault, failed, -⟩ | ⟨a, u, given, further⟩
    · exact first.grows failed
    · exact (first.grows given).trans ((rest a).grows further)
  again {s t u b} performed grown := by
    obtain ⟨a, v, given, further⟩ := perform_bind_eq_ok performed
    rw [perform_bind_ok (first.again given (((rest a).grows further).trans grown))]
    exact (rest a).again further grown
  fails {s t u fault} performed fails kept := by
    rcases perform_bind_cases performed with ⟨own, failed, same⟩ | ⟨a, v, given, further⟩
    · cases same
      rw [perform_bind, first.fails failed fails kept]
    · have grown := ((rest a).grows further).trans (.of_context kept)
      rw [perform_bind_ok (first.again given grown)]
      exact (rest a).fails further fails kept

theorem get_bind {next : Session → Play β} (same : ∀ {s t}, s.Grown t → next t = next s)
    (rest : ∀ s, Replays (next s)) : Replays (MonadState.get >>= next) where
  grows {s t result} performed := by
    rw [perform_get_bind] at performed
    exact (rest s).grows performed
  again {s t u b} performed grown := by
    rw [perform_get_bind] at performed ⊢
    rw [same (((rest s).grows performed).trans grown)]
    exact (rest s).again performed grown
  fails {s t u fault} performed fails kept := by
    rw [perform_get_bind] at performed ⊢
    rw [same (((rest s).grows performed).trans (.of_context kept))]
    exact (rest s).fails performed fails kept

end Replays

/-! ### Resolving -/

abbrev Unfailing {α : Type} (play : Play α) : Prop :=
  Yields (fun _ => True) (fun fault => fault.failsCondition = false) (fun _ => True) play

theorem Unfailing.absurd {α : Type} {play : Play α} {s t : Session} {fault : Fault} {P : Prop}
    (unfailing : Unfailing play) (performed : play.perform s = (.error fault, t))
    (fails : fault.failsCondition = true) : P := by
  have ends := (unfailing.outcome s trivial).2
  rw [performed] at ends
  rw [show fault.failsCondition = false from ends] at fails
  cases fails

namespace Unfailing

theorem log (level : Level) (message : String) : Unfailing (Play.log level message) :=
  .of_perform fun s _ => ⟨_, _, perform_log level message s, trivial, trivial⟩

theorem echo (text : String) : Unfailing (Play.echo text) :=
  .of_perform fun s _ => ⟨_, _, perform_record (.echo text) s, trivial, trivial⟩

theorem ask (question : Question) : Unfailing (Play.ask question) :=
  .of_perform fun s _ => ⟨_, _, perform_ask question s, trivial, trivial⟩

theorem register (value : String) : Unfailing
    (modify fun s => { s with secrets := s.secrets.register value } : Play PUnit) :=
  .of_perform fun s _ => ⟨_, _, perform_modify _ s, trivial, trivial⟩

theorem freeText (text default : String) : Unfailing (Play.freeText text default) :=
  .bind (ask _) fun _ _ => .pure trivial

theorem announced (expression value : String) : Unfailing (Resolve.announced expression value) :=
  .bind (log ..) fun _ _ => .pure trivial

theorem chosen? {options : List String} {answer : String} {fault : Fault}
    (failed : Play.chosen? options answer = .error fault) : fault.failsCondition = false := by
  unfold Play.chosen? at failed
  dsimp only at failed
  split at failed
  · split at failed
    · cases failed
      rfl
    · split at failed
      · cases failed
        rfl
      · split at failed <;> cases failed
  · cases failed

theorem chooseWithin (options : List String) (tries : Nat) :
    Unfailing (Play.chooseWithin options tries) := by
  induction tries with
  | zero => exact .throw rfl
  | succ tries ih =>
    refine .bind (ask _) fun answer _ => .bind_adopt (fun _ => chosen?) fun option _ => ?_
    cases option with
    | some option => exact .pure trivial
    | none => exact .bind (echo _) fun _ _ => ih

theorem choose (text : String) (options : List String) : Unfailing (Play.choose text options) := by
  refine .bind (echo _) fun _ _ => .bind (.forIn fun entry _ => ?_) fun _ _ => ?_
  · exact .bind (echo _) fun _ _ => .pure trivial
  · exact .bind .get fun s _ => chooseWithin ..

theorem normalizeJson (inner text : String) : Unfailing (Resolve.normalizeJson inner text) :=
  .of_perform fun s _ => by
    obtain ⟨t, performed, -⟩ := perform_normalizeJson_compact inner text s
    exact ⟨_, t, performed, trivial, trivial⟩

end Unfailing

theorem fails_of_fromSource {workflow : Mapping} {expression : String} {source : Source}
    {s t : Session} {fault : Fault}
    (performed : (Resolve.fromSource workflow expression source).perform s = (.error fault, t))
    (fails : fault.failsCondition = true) : t = s ∧
      ∀ u, (Resolve.fromSource workflow expression source).perform u = (.error fault, u) := by
  have asks (text default : String) :
      Unfailing (freeText text default >>= Resolve.announced expression) :=
    .bind (Unfailing.freeText ..) fun _ _ => Unfailing.announced ..
  cases source with
  | environment name =>
    -- The variables of the workflow can be searched or not, and a value has a text or not.
    rw [Resolve.fromSource] at performed ⊢
    rcases perform_adopt_cases performed with ⟨own, refused, same, rfl⟩ | ⟨found, searched, further⟩
    · cases same
      refine ⟨rfl, fun u => ?_⟩
      rw [refused]
      rfl
    · cases found with
      | none => exact (asks _ _).absurd further fails
      | some value =>
        rcases perform_fit_cases further with ⟨unfit, refused, same, rfl⟩ | ⟨text, -, told⟩
        · cases same
          refine ⟨rfl, fun u => ?_⟩
          rw [searched]
          show (Play.fit value.expressionText >>= _).perform u = _
          rw [refused]
          rfl
        · exact (Unfailing.announced ..).absurd told fails
  | menu options =>
    refine Unfailing.absurd ?_ performed fails
    exact .bind (Unfailing.choose ..) fun _ _ => Unfailing.announced ..
  | secret name =>
    refine Unfailing.absurd ?_ performed fails
    exact .bind (Unfailing.ask _) fun value _ => .bind (Unfailing.register value) fun _ _ =>
      .bind (Unfailing.log ..) fun _ _ => .pure trivial
  | output job name =>
    refine Unfailing.absurd (.bind .get fun s _ => ?_) performed fails
    split
    · exact .bind (Unfailing.log ..) fun _ _ => .pure trivial
    · exact asks _ _
  | _ => exact (asks _ _).absurd performed fails

/-- What resolving an expression fails with does not depend on the session but for what it has
kept. The induction is on the length of the expression, as that is how resolving ends. -/
theorem fails_of_resolve {workflow : Mapping} {expression : String} {s t : Session} {fault : Fault}
    (performed : (resolve workflow expression).perform s = (.error fault, t))
    (fails : fault.failsCondition = true) : t = s ∧
      ∀ u : Session, u.context = s.context →
        (resolve workflow expression).perform u = (.error fault, u) := by
  cases resolution_of_perform performed with
  | failed fresh failed =>
    have again (u : Session) (same : u.context = s.context)
        (further : (found workflow expression).perform u = (.error fault, u)) :
        (resolve workflow expression).perform u = (.error fault, u) := by
      have nothing : u.kept? expression = none := by rw [Session.kept?, same]; exact fresh
      rw [perform_resolve_of_fresh nothing, perform_bind, further]
    unfold found at failed again
    split at failed
    · next inner own =>
      have shorter := Source.length_lt_of_json own
      rcases perform_bind_cases failed with ⟨cause, refused, same⟩ | ⟨value, v, -, further⟩
      · cases same
        obtain ⟨rfl, others⟩ := fails_of_resolve refused fails
        refine ⟨rfl, fun u same => again u same ?_⟩
        rw [own]
        dsimp only
        rw [perform_bind, others u same]
      · exact (Unfailing.normalizeJson ..).absurd further fails
    · next other =>
      obtain ⟨rfl, others⟩ := fails_of_fromSource failed fails
      refine ⟨rfl, fun u same => again u same ?_⟩
      split
      · next inner own => exact absurd own (other inner)
      · exact others u
termination_by expression.length
decreasing_by simpa using shorter

theorem resolve_replays (workflow : Mapping) (expression : String) :
    Replays (resolve workflow expression) where
  grows performed := ⟨(learned_of_resolve performed).recalled,
    (resolve_inquires workflow expression).sameOutputs performed⟩
  again performed grown :=
    perform_resolve_of_kept (grown.recalled _ _ (kept_of_resolve performed))
  fails performed fails kept := by
    obtain ⟨rfl, again⟩ := fails_of_resolve performed fails
    exact again _ kept

/-! ### Evaluating an expression -/

namespace Expr

variable {functions : Functions} {lookup : String → Evaluation Session Operand}

theorem adopt_replays {α : Type} (result : Except Fault α) :
    Replays (Evaluation.adopt result : Play α) := by
  cases result with
  | ok a => exact .pure a
  | error fault => exact .throw fault

theorem truth_replays (operand : Operand) : Replays (Evaluation.truth operand : Play Bool) :=
  adopt_replays _

mutual

/-- Expressions replay if their references do: the operands are evaluated again one after the
other, and the same ones are left out. -/
theorem evaluate_replays (each : ∀ path, Replays (lookup path : Play Operand)) :
    ∀ e : Expr, Replays (e.evaluate functions lookup : Play Operand)
  | .literal value => .pure _
  | .reference path => each path
  | .call name arguments => by
    unfold evaluate
    split
    · exact .throw _
    · exact .bind (evaluateAll_replays each arguments) fun _ => adopt_replays _
  | .not operand => by
    unfold evaluate
    exact .bind (evaluate_replays each operand) fun _ => .bind (truth_replays _) fun _ => .pure _
  | .binary op left right => by
    have first := evaluate_replays each left
    have second := evaluate_replays each right
    cases op with
    | and =>
      unfold evaluate
      refine .bind first fun value => .bind (truth_replays _) fun holds => ?_
      cases holds with
      | true => exact second
      | false => exact .pure _
    | or =>
      unfold evaluate
      refine .bind first fun value => .bind (truth_replays _) fun holds => ?_
      cases holds with
      | true => exact .pure _
      | false => exact second
    | _ =>
      unfold evaluate
      exact .bind first fun _ => .bind second fun _ => .bind (adopt_replays _) fun _ => .pure _

theorem evaluateAll_replays (each : ∀ path, Replays (lookup path : Play Operand)) :
    ∀ es : List Expr, Replays (evaluateAll functions lookup es : Play (List Operand))
  | [] => .pure _
  | e :: es => by
    unfold evaluateAll
    exact .bind (evaluate_replays each e) fun _ =>
      .bind (evaluateAll_replays each es) fun _ => .pure _

end

end Expr

/-! ### Reading a condition -/

namespace Condition

open Expression Rehearsal.Text

variable {frame : Frame} {text : List Char} {s t : Session}

theorem missing?_of_sameOutputs (same : s.SameOutputs t) (job : Option Scalar) (e : Expr) :
    missing? t.context job e = missing? s.context job e := by
  have each : missingAt? t.context job = missingAt? s.context job := by
    funext path
    simp only [missingAt?, same.jobOutput?, same.stepOutput?]
  rw [missing?, missing?, each]

theorem lookup_replays (frame : Frame) (path : String) : Replays (lookup frame path) := by
  cases lookup_cases frame path with
  | read find same performed =>
    have reads : Replays (do return find (← get).context : Play Operand) :=
      .get_bind (fun grown => congrArg Pure.pure (same _ _ grown.outputs)) fun _ => .pure _
    exact reads.congr performed
  | resolved own performed =>
    exact .congr (.bind (resolve_replays ..) fun _ => .pure _) performed
  | undefined performed => exact .of_constant _ performed

theorem evaluate_replays (frame : Frame) (e : Expr) : Replays (evaluate frame e) :=
  Expr.evaluate_replays (lookup_replays frame) e

theorem parsed_replays (text : List Char) : Replays (parsed text) :=
  .of_constant _ (perform_parsed text)

theorem spliced_replays (frame : Frame) (quote : Option Char) (placeholder : List Char) :
    Replays (spliced frame quote placeholder) := by
  refine .bind (parsed_replays _) fun e => .get_bind (fun grown => ?_) fun s => ?_
  · rw [missing?_of_sameOutputs grown.outputs]
  · dsimp only
    split
    · exact .throw _
    · exact .bind (evaluate_replays frame e) fun _ => .bind (.fit _) fun _ => .pure _

theorem replaceEach_replays {f : List Char → Play (List Char)} (each : ∀ w, Replays (f w))
    (pieces : List Piece) : Replays (replaceEach f pieces) := by
  induction pieces with
  | nil => exact .pure _
  | cons piece rest ih =>
    cases piece with
    | plain c => exact .bind ih fun _ => .pure _
    | found w => exact .bind (each w) fun _ => .bind ih fun _ => .pure _

theorem expression_replays (frame : Frame) (text : List Char) :
    Replays (expression frame text) := by
  refine .bind (replaceEach_replays (fun literal => ?_) _) fun _ => parsed_replays _
  exact replaceEach_replays (fun placeholder => spliced_replays ..) _

/-! ### Deciding a condition -/

variable {e : Expr} {b : Bool}

theorem decideExpr_again (performed : (decideExpr frame text e).perform s = (.ok b, t)) :
    s.Grown t ∧ ∃ u, (decideExpr frame text e).perform t = (.ok b, u) ∧ t.Noted u := by
  have still {u : Session} (grown : s.Grown u) (job : Option Scalar) :
      missing? u.context job e = missing? s.context job e :=
    missing?_of_sameOutputs grown.outputs job e
  cases missing : missing? s.context frame.owner.stepsOf? e with
  | some output =>
    obtain ⟨u, told, noted⟩ := @perform_decideExpr_of_missing frame text _ _ _ missing
    rw [told] at performed
    cases performed
    have grown := Session.Grown.of_context noted.context
    exact ⟨grown, perform_decideExpr_of_missing ((still grown _).trans missing)⟩
  | none =>
    have replays := evaluate_replays frame e
    cases evaluated : (evaluate frame e).perform s with
    | mk result v =>
      have grown := replays.grows evaluated
      cases result with
      | ok operand =>
        rw [perform_decideExpr_of_ok missing evaluated, perform_fit] at performed
        obtain ⟨truth, rfl⟩ := Prod.mk.inj performed
        have again := replays.again evaluated (.refl v)
        refine ⟨grown, v, ?_, .refl v⟩
        rw [perform_decideExpr_of_ok ((still grown _).trans missing) again, perform_fit, truth]
      | error fault =>
        obtain ⟨u, told, noted⟩ := @perform_decideExpr_of_fault frame text _ _ _ _ missing evaluated
        rw [told] at performed
        cases fails : fault.failsCondition with
        | false =>
          rw [fails] at performed
          cases performed
        | true =>
          rw [fails] at performed
          cases performed
          have whole := grown.trans (.of_context noted.context)
          have failed := replays.fails evaluated fails noted.context
          obtain ⟨w, again, more⟩ := @perform_decideExpr_of_fault frame text _ _ _ _
            ((still whole _).trans missing) failed
          rw [fails] at again
          exact ⟨whole, w, again, more⟩

theorem decideText_again (performed : (decideText frame text).perform s = (.ok b, t)) :
    ∃ u, (decideText frame text).perform t = (.ok b, u) ∧ t.Noted u := by
  have replays := expression_replays frame text
  cases read : (expression frame text).perform s with
  | mk result v =>
    cases result with
    | ok e =>
      rw [perform_decideText_of_ok read] at performed
      obtain ⟨grown, u, again, noted⟩ := decideExpr_again performed
      rw [perform_decideText_of_ok (replays.again read grown)]
      exact ⟨u, again, noted⟩
    | error fault =>
      obtain ⟨u, told, noted⟩ := perform_decideText_of_fault read
      rw [told] at performed
      cases fails : fault.failsCondition with
      | false =>
        rw [fails] at performed
        cases performed
      | true =>
        rw [fails] at performed
        cases performed
        obtain ⟨w, again, more⟩ :=
          perform_decideText_of_fault (replays.fails read fails noted.context)
        rw [fails] at again
        exact ⟨w, again, more⟩

theorem perform_holds_of_none {condition : Value} (stated : expressionText? condition = none) :
    ∃ result, ∀ s, (holds frame condition).perform s = (result, s) := by
  unfold holds
  split
  · exact ⟨_, fun s => rfl⟩
  · exact ⟨_, fun s => rfl⟩
  · next absent constant =>
    cases written : condition.plain with
    | error u => exact ⟨.error (.unfit u), fun s => rfl⟩
    | ok plain =>
      refine ⟨.ok true, fun s => ?_⟩
      rw [perform_bind_ok (perform_fit ..)]
      split
      · rfl
      · next text nonempty =>
        have some := expressionText?_isSome (fun same => absent same)
          (fun b same => constant b same) written (fun empty => nonempty empty)
        rw [stated] at some
        cases some

/-- **Conditions are idempotent.** A condition that came to a truth value comes to the same one
again, asks for nothing more and keeps nothing more. -/
theorem conditions_are_idempotent (frame : Frame) (condition : Value)
    (performed : (holds frame condition).perform s = (.ok b, t)) :
    ∃ u, (holds frame condition).perform t = (.ok b, u) ∧ u.questions = t.questions ∧
      u.context = t.context := by
  cases stated : expressionText? condition with
  | none =>
    obtain ⟨result, constant⟩ := @perform_holds_of_none frame condition stated
    rw [constant] at performed ⊢
    obtain ⟨rfl, rfl⟩ := Prod.mk.inj performed
    exact ⟨s, rfl, rfl, rfl⟩
  | some text =>
    rw [perform_holds_of_text stated] at performed ⊢
    obtain ⟨u, again, noted⟩ := decideText_again performed
    exact ⟨u, again, noted.questions, noted.context⟩

/-- A condition of a step that asks for a quoted placeholder and for a reference. -/
def askingCondition : Value := .str "'$\x7b\x7b github.sha \x7d\x7d' != github.ref_name"

theorem conditions_are_idempotent_asking :
    let decide := holds ⟨[], .step (.str "build"), []⟩ askingCondition
    (decide.perform {}).2.questions.length = 2 ∧
      ∃ u, decide.perform (decide.perform {}).2 = (.ok true, u) ∧
        u.questions = (decide.perform {}).2.questions ∧
        u.context = (decide.perform {}).2.context := by
  constructor
  · decide +kernel
  · exact conditions_are_idempotent _ askingCondition
      (perform_eq_of_toOption (by decide +kernel))

end Condition
end Rehearsal
