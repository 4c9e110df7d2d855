import Rehearsal.Proofs.Condition.Checked
import Rehearsal.Proofs.Condition.Spliced

/-! A condition that mentions an output which is not on record is not evaluated, so all that it asks
and keeps is for the placeholders in its quoted texts, which are replaced first. If looking up their
references changes nothing, the condition asks for nothing: `missing_outputs_are_found_early`. A
placeholder that has to be asked for is asked for in vain (`placeholder_is_asked_for_in_vain`). -/

namespace Rehearsal.Condition

open Play Expression Rehearsal.Text

variable {frame : Frame} {text : List Char} {path : String} {e : Expr} {s t : Session}

/-! ### References that change nothing -/

/-- That looking up a reference changes nothing: if it is resolved, it has kept a value. -/
def Settled (frame : Frame) (s : Session) (path : String) : Prop :=
  IsResolved frame path → ∃ value, s.kept? path = some value

/-- That a play leaves a session as it is, and that something holds if it comes to its end. -/
abbrev Leaves {α : Type} (s : Session) (After : Prop) (play : Play α) : Prop :=
  Yields (· = s) (fun _ => True) (fun _ => After) play

theorem leaves_of_same {α : Type} {play : Play α} (same : (play.perform s).2 = s) :
    Leaves s True play := by
  refine ⟨fun u start => ?_⟩
  subst start
  refine ⟨same, ?_⟩
  cases (play.perform u).1 <;> trivial

theorem lookup_leaves (settled : Settled frame s path) : Leaves s True (lookup frame path) := by
  refine leaves_of_same ?_
  cases lookup_cases frame path with
  | read find same performed => rw [performed]
  | resolved own performed =>
    obtain ⟨value, kept⟩ := settled own
    rw [performed, perform_bind_ok (perform_resolve_of_kept kept)]
    rfl
  | undefined performed => rw [performed]

theorem evaluate_leaves (settled : ∀ path ∈ e.references, Settled frame s path) :
    Leaves s True (evaluate frame e) := by
  obtain ⟨visits, -, made, part, -⟩ :=
    (@Expr.evaluate_watches Session Functions.builtin (lookup frame) e).follows s []
  have each : ∀ visit ∈ visits, ∀ u, u = s →
      (Evaluation.runFrom (lookup frame visit.path) u).2 = s := by
    intro visit member u same
    have known := settled visit.path (part.subset (List.mem_map_of_mem member))
    exact ((lookup_leaves known).outcome u same).1
  exact leaves_of_same (made.keeps each rfl).2

/-! ### Placeholders that change nothing -/

def foundParts (pieces : List Piece) : List (List Char) :=
  pieces.filterMap fun
    | .plain _ => none
    | .found part => some part

/-- The placeholders in the quoted texts of a condition, in the order in which they are replaced. -/
def quotedPlaceholders (text : List Char) : List (List Char) :=
  (foundParts (cut Quoted.length? text)).flatMap fun literal =>
    foundParts (cut Placeholder.length? literal)

/-- That replacing placeholders one after the other changes nothing: up to the first one that cannot
be read or mentions a missing output, all references are settled. -/
def Silent (frame : Frame) (s : Session) : List (List Char) → Prop
  | [] => True
  | placeholder :: rest =>
    ∀ e, Expression.parse (String.ofList (Placeholder.expression placeholder)) = .ok e →
      missing? s.context frame.owner.stepsOf? e = none →
        (∀ path ∈ e.references, Settled frame s path) ∧ Silent frame s rest

theorem spliced_leaves {quote : Option Char} {placeholder : List Char} {rest : List (List Char)}
    (silent : Silent frame s (placeholder :: rest)) :
    Leaves s (Silent frame s rest) (spliced frame quote placeholder) := by
  have parses : Yields (· = s) (Fault.Inner fun _ => True)
      (fun e => e.Modest ∧ Expression.parse (String.ofList (Placeholder.expression placeholder)) =
        .ok e) (parsed (Placeholder.expression placeholder)) := parsed_yields _
  refine .bind (parses.mono (fun e own => own.2) fun _ _ => trivial) fun e read =>
    .bind .get fun u same => ?_
  subst same
  dsimp only
  split
  · exact .throw trivial
  · next known =>
    have missing : missing? u.context frame.owner.stepsOf? e = none :=
      Option.eq_none_iff_forall_ne_some.mpr fun output same => known output same
    obtain ⟨settled, others⟩ := silent e read missing
    exact (evaluate_leaves settled).bind fun operand _ =>
      .bind_fit (fun _ _ => trivial) fun _ _ => .pure others

theorem replaceEach_leaves {quote : Option Char} {pieces : List Piece} {rest : List (List Char)}
    (silent : Silent frame s (foundParts pieces ++ rest)) :
    Leaves s (Silent frame s rest) (replaceEach (spliced frame quote) pieces) := by
  induction pieces with
  | nil => exact .pure silent
  | cons piece pieces ih =>
    cases piece with
    | plain c => exact (ih silent).bind fun _ others => .pure others
    | found placeholder =>
      exact (spliced_leaves silent).bind fun _ later => (ih later).bind fun _ others => .pure others

theorem splice_leaves (silent : Silent frame s (quotedPlaceholders text)) :
    Leaves s True (splice frame text) := by
  have pieces (pieces : List Piece) (silent : Silent frame s ((foundParts pieces).flatMap
      fun literal => foundParts (cut Placeholder.length? literal))) :
      Leaves s True (replaceEach (spliceLiteral frame) pieces) := by
    induction pieces with
    | nil => exact .pure trivial
    | cons piece pieces ih =>
      cases piece with
      | plain c => exact (ih silent).bind fun _ _ => .pure trivial
      | found literal =>
        exact (replaceEach_leaves silent).bind fun _ later => (ih later).bind fun _ _ =>
          .pure trivial
  exact pieces _ silent

/-! ### The condition -/

/-- That a condition with this text mentions a path: in a placeholder in a quoted text, or in what
is read when those have been replaced, if that can be read. -/
inductive Mentions (frame : Frame) (text : List Char) (s : Session) (path : String) : Prop
  | inside {literal placeholder : List Char} {e : Expr}
    (quoted : .found literal ∈ cut Quoted.length? text)
    (placed : .found placeholder ∈ cut Placeholder.length? literal)
    (read : Expression.parse (String.ofList (Placeholder.expression placeholder)) = .ok e)
    (mentioned : path ∈ e.references) : Mentions frame text s path
  | whole (mentioned : ∀ e, ((expression frame text).perform s).1 = .ok e → path ∈ e.references) :
    Mentions frame text s path

theorem perform_expression_snd (frame : Frame) (text : List Char) (s : Session) :
    ((expression frame text).perform s).2 = ((splice frame text).perform s).2 := by
  rw [expression, perform_bind]
  cases (splice frame text).perform s with
  | mk result t =>
    cases result with
    | error fault => rfl
    | ok spliced => simp only [perform_parsed]

theorem Mentions.missing? (mentions : Mentions frame text s path)
    (unknown : Unrecorded s.context frame.owner.stepsOf? path)
    (performed : (expression frame text).perform s = (.ok e, t)) :
    ∃ output, Condition.missing? t.context frame.owner.stepsOf? e = some output := by
  cases mentions with
  | inside quoted placed read mentioned =>
    obtain ⟨u, same, known⟩ := known_of_quoted quoted placed read performed
    obtain ⟨output, missing⟩ := (unknown.of_sameOutputs same).missing? read mentioned
    rw [known] at missing
    cases missing
  | whole mentioned =>
    obtain ⟨written, parsed⟩ := parse_of_expression performed
    have same := (expression_inquires frame text).sameOutputs performed
    exact (unknown.of_sameOutputs same).missing? parsed (mentioned e (by rw [performed]))

/-! ### What a decision adds to the log -/

theorem perform_attempt_fault {α : Type} {part : Play α} {fault : Fault}
    (performed : part.perform s = (.error fault, t)) :
    ∃ u, (attempt frame text part).perform s =
      (if fault.failsCondition then .ok none else .error fault, u) ∧ t.Noted u := by
  unfold attempt
  rw [perform_tryCatch, perform_map, performed]
  dsimp only
  split
  · obtain ⟨u, warned, noted⟩ := Session.Noted.log .warning ("Error evaluating " ++
      frame.owner.word ++ " condition '" ++ String.ofList text ++ "': " ++ fault.message) t
    rw [warning, perform_bind_ok warned]
    exact ⟨u, rfl, noted⟩
  · exact ⟨t, rfl, .refl t⟩

theorem perform_decideExpr_of_missing {output : MissingOutput}
    (missing : Condition.missing? s.context frame.owner.stepsOf? e = some output) :
    ∃ u, (decideExpr frame text e).perform s = (.ok false, u) ∧ s.Noted u := by
  obtain ⟨u, warned, noted⟩ := Session.Noted.log .warning
    (frame.owner.title ++ " condition references unknown " ++ output.description) s
  rw [decideExpr, perform_get_bind, missing]
  dsimp only
  rw [warning, perform_bind_ok warned]
  exact ⟨u, rfl, noted⟩

theorem perform_decideExpr_of_ok {operand : Operand}
    (known : Condition.missing? s.context frame.owner.stepsOf? e = none)
    (evaluated : (evaluate frame e).perform s = (.ok operand, t)) :
    (decideExpr frame text e).perform s = (fit operand.value.truthy).perform t := by
  rw [decideExpr, perform_get_bind, known]
  dsimp only
  rw [perform_bind_ok (perform_attempt_ok evaluated)]

theorem perform_decideExpr_of_fault {fault : Fault}
    (known : Condition.missing? s.context frame.owner.stepsOf? e = none)
    (failed : (evaluate frame e).perform s = (.error fault, t)) :
    ∃ u, (decideExpr frame text e).perform s =
      (if fault.failsCondition then .ok false else .error fault, u) ∧ t.Noted u := by
  obtain ⟨u, attempted, noted⟩ := @perform_attempt_fault frame text _ _ _ _ _ failed
  refine ⟨u, ?_, noted⟩
  rw [decideExpr, perform_get_bind, known]
  dsimp only
  rw [perform_bind, attempted]
  cases fault.failsCondition <;> rfl

theorem perform_decideText_of_ok (read : (expression frame text).perform s = (.ok e, t)) :
    (decideText frame text).perform s = (decideExpr frame text e).perform t := by
  rw [decideText, perform_bind_ok (perform_attempt_ok read)]

theorem perform_decideText_of_fault {fault : Fault}
    (failed : (expression frame text).perform s = (.error fault, t)) :
    ∃ u, (decideText frame text).perform s =
      (if fault.failsCondition then .ok false else .error fault, u) ∧ t.Noted u := by
  obtain ⟨u, attempted, noted⟩ := @perform_attempt_fault frame text _ _ _ _ _ failed
  refine ⟨u, ?_, noted⟩
  rw [decideText, perform_bind, attempted]
  cases fault.failsCondition <;> rfl

/-- After the placeholders in quoted texts are replaced, a condition with a missing output is only
told of. -/
theorem decideText_noted (mentions : Mentions frame text s path)
    (unknown : Unrecorded s.context frame.owner.stepsOf? path) :
    ((splice frame text).perform s).2.Noted ((decideText frame text).perform s).2 := by
  rw [← perform_expression_snd]
  cases performed : (expression frame text).perform s with
  | mk result t =>
    cases result with
    | error fault =>
      obtain ⟨u, told, noted⟩ := perform_decideText_of_fault performed
      rw [told]
      exact noted
    | ok e =>
      obtain ⟨output, missing⟩ := mentions.missing? unknown performed
      obtain ⟨u, told, noted⟩ := @perform_decideExpr_of_missing frame text _ _ _ missing
      rw [perform_decideText_of_ok performed, told]
      exact noted

/-- **Missing outputs.** A condition that mentions an output which is not on record does nothing but
replace the placeholders in its quoted texts, and write log records. So it asks for nothing and
keeps nothing if these placeholders change nothing. -/
theorem missing_outputs_are_found_early {condition : Value}
    (stated : expressionText? condition = some text) (mentions : Mentions frame text s path)
    (unknown : Unrecorded s.context frame.owner.stepsOf? path) :
    ((splice frame text).perform s).2.Noted ((holds frame condition).perform s).2 ∧
      (Silent frame s (quotedPlaceholders text) →
        ((holds frame condition).perform s).2.questions = s.questions ∧
        ((holds frame condition).perform s).2.context.resolved = s.context.resolved) := by
  have noted := decideText_noted mentions unknown
  rw [perform_holds_of_text stated]
  refine ⟨noted, fun silent => ?_⟩
  rw [((splice_leaves silent).outcome s rfl).1] at noted
  exact ⟨noted.questions, by rw [noted.context]⟩

/-! ### Placeholders beside a missing output -/

theorem mentions_of_references {paths : List String}
    (read : ((expression frame text).perform s).1.toOption.map (·.references) = some paths)
    (member : path ∈ paths) : Mentions frame text s path := by
  refine .whole fun e same => ?_
  rw [same] at read
  obtain rfl : e.references = paths := Option.some.inj read
  exact member

/-- A condition that looks a binding up, would ask, and mentions an output. -/
def settledText : List Char :=
  "'v$\x7b\x7b matrix.n \x7d\x7d' == github.sha || needs.build.outputs.version".toList

theorem missing_outputs_are_found_early_settled :
    let t := ((holds (boundFrame (.str "1")) (.str (String.ofList settledText))).perform {}).2
    t.questions = [] ∧ t.context.resolved = [] := by
  have stated : expressionText? (.str (String.ofList settledText)) = some settledText := by
    decide +kernel
  have read : ((expression (boundFrame (.str "1")) settledText).perform {}).1.toOption.map
      (·.references) = some ["github.sha", "needs.build.outputs.version"] := by decide +kernel
  have unknown : Unrecorded ({} : Session).context none
      ("needs." ++ "build" ++ ".outputs." ++ "version") := .ofJob (by decide) rfl
  have mentions := mentions_of_references read (List.mem_cons_of_mem _ List.mem_cons_self)
  have placeholders : quotedPlaceholders settledText =
      ["$\x7b\x7b matrix.n \x7d\x7d".toList] := by decide +kernel
  have silent : Silent (boundFrame (.str "1")) {} (quotedPlaceholders settledText) := by
    rw [placeholders]
    intro e read _
    have own : (Expression.parse (String.ofList (Placeholder.expression
        "$\x7b\x7b matrix.n \x7d\x7d".toList))).toOption.map (·.references) =
          some ["matrix.n"] := by
      decide +kernel
    rw [read] at own
    obtain same : e.references = ["matrix.n"] := Option.some.inj own
    refine ⟨?_, trivial⟩
    rw [same, List.forall_mem_singleton]
    intro resolved
    cases resolved.free "n" rfl
  exact (missing_outputs_are_found_early stated mentions unknown).2 silent

def askedText : List Char :=
  "'$\x7b\x7b github.sha \x7d\x7d' == needs.build.outputs.version".toList

/-- The question is put, and its answer kept, although an output is missing. -/
theorem placeholder_is_asked_for_in_vain :
    expressionText? (.str (String.ofList askedText)) = some askedText ∧
      Mentions ⟨[], .job, []⟩ askedText {} ("needs." ++ "build" ++ ".outputs." ++ "version") ∧
      Unrecorded ({} : Session).context none
        ("needs." ++ "build" ++ ".outputs." ++ "version") ∧
      let t := ((holds ⟨[], .job, []⟩ (.str (String.ofList askedText))).perform {}).2
      t.questions.map (·.text) = ["Enter commit SHA"] ∧
        t.context.resolved.map Prod.fst = ["github.sha"] := by
  have read : ((expression ⟨[], .job, []⟩ askedText).perform {}).1.toOption.map
      (·.references) = some ["needs.build.outputs.version"] := by decide +kernel
  exact ⟨by decide +kernel, mentions_of_references read List.mem_cons_self,
    .ofJob (by decide) rfl, by decide +kernel, by decide +kernel⟩

end Rehearsal.Condition
