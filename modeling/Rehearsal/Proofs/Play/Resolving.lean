import Rehearsal.Condition
import Rehearsal.Matrix
import Rehearsal.Proofs.Expression.Leaves
import Rehearsal.Proofs.Play.Acts
import Rehearsal.Proofs.Value.Inside

/-! Asking for a text, filling in a text, expanding a matrix and deciding a condition show, ask, and
resolve expressions. They confirm nothing, run no command and record no result. The expressions that
they resolve are those in the texts that are filled in, and references of conditions. -/

namespace Rehearsal

open Play

variable {Allowed : String → Prop}

theorem info_consults (message : String) : Consults Deed.Inquires Allowed (info message) :=
  .log (Deed.inquires_info message)

theorem debug_consults (message : String) : Consults Deed.Inquires Allowed (debug message) :=
  .log (Deed.inquires_debug message)

theorem error_consults (message : String) : Consults Deed.Inquires Allowed (error message) :=
  .log (Deed.inquires_error message)

/-! ### Expressions -/

theorem announced_consults (expression value : String) :
    Consults Deed.Inquires Allowed (Resolve.announced expression value) :=
  .bind (info_consults _) fun _ => .pure _

theorem askStepOutput_consults (expression : String) :
    Consults Deed.Inquires Allowed (freeText (stepOutputText expression) "output-value") :=
  .bind (.ask (isConfirmation_quoted _) (.inr ⟨expression, rfl⟩)) fun _ => .pure _

theorem resolveStepOutput_consults (job : Scalar) (expression : String) :
    Consults Deed.Inquires Allowed (resolveStepOutput job expression) := by
  refine .bind .get fun s => ?_
  have asked : Consults Deed.Inquires Allowed _ := askStepOutput_consults expression
  dsimp only
  split
  · split
    · exact .pure _
    · exact asked
  · exact asked

theorem substitute_consults (scope : Scope) {expression : String} (allowed : Allowed expression) :
    Consults Deed.Inquires Allowed (substitute scope expression) := by
  unfold substitute
  split
  · exact .bind (.fit _) fun _ => announced_consults ..
  · split
    · refine .bind (resolveStepOutput_consults ..) fun value => ?_
      dsimp only
      split
      · exact .bind (info_consults _) fun _ => .pure _
      · exact .pure _
    · exact .resolve _ allowed

theorem fillWith_consults (scope : Scope) (step : String) {expressions : List String}
    (text : List Char) (allowed : ∀ expression ∈ expressions, Allowed expression) :
    Consults Deed.Inquires Allowed (fillWith scope step expressions text) := by
  induction expressions generalizing text with
  | nil => exact .pure text
  | cons expression rest ih =>
    obtain ⟨own, others⟩ := List.forall_mem_cons.mp allowed
    exact .bind (substitute_consults scope own) fun _ => .bind (debug_consults _) fun _ =>
      ih _ others

theorem fill_consults (scope : Scope) (step : String) {text : String}
    (allowed : ∀ expression ∈ Expression.Placeholder.extract text, Allowed expression) :
    Consults Deed.Inquires Allowed (fill scope step text) :=
  .bind (fillWith_consults scope step _ allowed) fun _ => .pure _

theorem fillValue_consults (scope : Scope) (step : String) {value : Value}
    (uses : value.Uses Allowed) : Consults Deed.Inquires Allowed (fillValue scope step value) :=
  .bind_fit fun _ told => fill_consults scope step (uses.text told)

theorem resolveJobOutput_consults (scope : Scope) {value : Value} (uses : value.Uses Allowed) :
    Consults Deed.Inquires Allowed (resolveJobOutput scope value) := by
  refine .bind_fit fun text told => ?_
  have filled := fill_consults scope "job-outputs" (uses.text told)
  dsimp only
  split
  · split
    · refine .bind .get fun s => ?_
      split
      · exact .bind (info_consults _) fun _ => .pure _
      · exact askStepOutput_consults _
    · exact filled
  · exact filled

/-! ### Matrices -/

namespace Matrix

theorem resolveJson_consults (scope : Scope) {text : String}
    (uses : (Value.str text).Uses Allowed) :
    Consults Deed.Inquires Allowed (resolveJson scope text) := by
  refine .bind (fill_consults scope "matrix" (uses.text rfl)) fun resolved => ?_
  split
  · exact .pure _
  · exact .pure _

theorem statedEntries_consults (scope : Scope) {value : Value} (uses : value.Uses Allowed) :
    Consults Deed.Inquires Allowed (statedEntries scope value) := by
  unfold statedEntries
  extract_lets listed
  have lists (value : Value) : Consults Deed.Inquires Allowed (listed value) := by
    dsimp only [listed]
    split
    · exact .pure _
    · exact .pure _
  split
  · exact .bind (resolveJson_consults scope uses) lists
  · exact .bind (.pure _) lists

theorem axisValues_consults (scope : Scope) {value : Value} (uses : value.Uses Allowed) :
    Consults Deed.Inquires Allowed (axisValues scope value) := by
  unfold axisValues
  extract_lets listed
  have lists (value : Value) : Consults Deed.Inquires Allowed (listed value) := by
    dsimp only [listed]
    split
    · exact .pure _
    · exact .pure _
  split
  · split
    · exact .bind (resolveJson_consults scope uses) lists
    · exact .bind (.pure _) lists
  · exact .bind (.pure _) lists

theorem logCombinations_consults (combinations : List Mapping) :
    Consults Deed.Inquires Allowed (logCombinations combinations) := by
  refine .bind (info_consults _) fun _ => .bind (.forIn fun _ _ => ?_) fun _ => .pure _
  exact .bind (.fit _) fun _ => .bind (info_consults _) fun _ => .pure _

theorem expandMapping_consults (scope : Scope) {matrix : Mapping}
    (uses : (Value.map matrix).Uses Allowed) :
    Consults Deed.Inquires Allowed (expandMapping scope matrix) := by
  refine .bind (statedEntries_consults scope (uses.findD _)) fun included =>
    .bind (statedEntries_consults scope (uses.findD _)) fun excluded =>
    .bind (.mapM fun entry member => ?_) fun axes => ?_
  · have own := uses.entry ((List.mem_filter.mp member).1)
    exact .bind (axisValues_consults scope own) fun _ => .pure _
  · dsimp only
    split
    · refine .bind (.fit _) fun job => .bind (.log ?_) fun _ => .pure _
      simp [Deed.Inquires, Deed.Resolves, Deed.saysStuck, Text.startsWith, Text.after?]
    · exact .bind (logCombinations_consults _) fun _ => .pure _

/-- That the values which a matrix in the form of a text stands for name expressions of some sort
only. -/
def Decodes (Allowed : String → Prop) (scope : Scope) (matrix : Value) : Prop :=
  ∀ text, matrix = .str text → ∀ s value t, (resolveJson scope text).perform s = (.ok value, t) →
    value.Uses Allowed

theorem expand_consults (scope : Scope) {matrix : Value} (uses : matrix.Uses Allowed)
    (decodes : Decodes Allowed scope matrix) :
    Consults Deed.Inquires Allowed (expand scope matrix) := by
  unfold expand
  extract_lets expanded
  have expands (matrix : Value) (uses : matrix.Uses Allowed) :
      Consults Deed.Inquires Allowed (expanded matrix) := by
    have content := uses.opened
    dsimp only [expanded]
    split
    · exact .bind (logCombinations_consults _) fun _ => .pure _
    · next entries same =>
      rw [same] at content
      exact expandMapping_consults scope content
    · refine .bind (.log ?_) fun _ => .pure _
      simp [Deed.Inquires, Deed.Resolves, Deed.saysStuck, Text.startsWith, Text.after?]
  split
  · exact .pure _
  · split
    · next text _ =>
      exact .bind_given (resolveJson_consults scope uses) fun s value t resolved =>
        expands value (decodes text rfl s value t resolved)
    · rw [pure_bind]
      exact expands _ uses

end Matrix

/-! ### Conditions -/

namespace Condition

open Expression

/-- That references of conditions are expressions of some sort. What a reference to an output of a
needed job stands for is not resolved. -/
def Refers (Allowed : String → Prop) : Prop :=
  ∀ path : String, IsPath path.toList → Reference.job? path = none → Allowed path

theorem Refers.all : Refers fun _ => True := fun _ _ _ => trivial

theorem lookup_consults (frame : Frame) {path : String}
    (allowed : Reference.job? path = none → Allowed path) :
    Consults Deed.Inquires Allowed (lookup frame path) := by
  refine .bind .get fun s => ?_
  extract_lets context resolved bound
  split
  · exact .pure _
  · split
    · exact .pure _
    · next other =>
      have resolves : Consults Deed.Inquires Allowed (resolved ()) := by
        dsimp only [resolved]
        split
        · exact .bind (.resolve _ (allowed (Option.eq_none_iff_forall_ne_some.mpr
            fun _ same => other _ _ same))) fun _ => .pure _
        · exact .throw _
      have binds : Consults Deed.Inquires Allowed (bound ()) := by
        dsimp only [bound]
        split
        · split
          · exact .pure _
          · exact resolves
        · exact resolves
      split
      · split
        · exact .pure _
        · exact binds
      · exact binds

end Condition

/-! ### Evaluating an expression -/

namespace Expr

variable {functions : Functions} {lookup : String → Evaluation Session Operand}

theorem adopt_consults {α : Type} (result : Except Fault α) :
    Consults Deed.Inquires Allowed (Evaluation.adopt result : Play α) := by
  cases result with
  | ok a => exact .pure a
  | error fault => exact .throw fault

theorem truth_consults (operand : Operand) :
    Consults Deed.Inquires Allowed (Evaluation.truth operand : Play Bool) := adopt_consults _

mutual

theorem evaluate_consults : ∀ e : Expr,
    (∀ path ∈ e.references, Consults Deed.Inquires Allowed (lookup path : Play Operand)) →
    Consults Deed.Inquires Allowed (e.evaluate functions lookup : Play Operand)
  | .literal value, _ => .pure _
  | .reference path, found => found path (by simp [references])
  | .call name arguments, found => by
    unfold evaluate
    split
    · exact .throw _
    · refine .bind (evaluateAll_consults arguments fun path member => found path ?_)
        fun _ => adopt_consults _
      rwa [references]
  | .not operand, found => by
    unfold evaluate
    refine .bind (evaluate_consults operand fun path member => found path ?_)
      fun _ => .bind (truth_consults _) fun _ => .pure _
    rwa [references]
  | .binary op left right, found => by
    have first := evaluate_consults left fun path member =>
      found path (by rw [references]; exact List.mem_append_left _ member)
    have second := evaluate_consults right fun path member =>
      found path (by rw [references]; exact List.mem_append_right _ member)
    cases op with
    | and =>
      unfold evaluate
      refine .bind first fun value => .bind (truth_consults _) fun holds => ?_
      cases holds with
      | true => exact second
      | false => exact .pure _
    | or =>
      unfold evaluate
      refine .bind first fun value => .bind (truth_consults _) fun holds => ?_
      cases holds with
      | true => exact .pure _
      | false => exact second
    | _ =>
      unfold evaluate
      exact .bind first fun _ => .bind second fun _ => .bind (adopt_consults _) fun _ => .pure _

theorem evaluateAll_consults : ∀ es : List Expr,
    (∀ path ∈ referencesOfAll es, Consults Deed.Inquires Allowed (lookup path : Play Operand)) →
    Consults Deed.Inquires Allowed (evaluateAll functions lookup es : Play (List Operand))
  | [], _ => .pure _
  | e :: es, found => by
    unfold evaluateAll
    refine .bind (evaluate_consults e fun path member => found path ?_) fun _ =>
      .bind (evaluateAll_consults es fun path member => found path ?_) fun _ => .pure _
    · rw [referencesOfAll]
      exact List.mem_append_left _ member
    · rw [referencesOfAll]
      exact List.mem_append_right _ member

end

end Expr

namespace Condition

open Expression

variable {frame : Frame} {s t : Session} {e : Expr}

/-! ### Reading a condition -/

theorem parse_of_parsed {text : List Char} (performed : (parsed text).perform s = (.ok e, t)) :
    ∃ written, Expression.parse written = .ok e := by
  unfold parsed at performed
  split at performed
  · next read =>
    cases performed
    exact ⟨_, read⟩
  · cases performed

theorem parse_of_expression {text : List Char}
    (performed : (expression frame text).perform s = (.ok e, t)) :
    ∃ written, Expression.parse written = .ok e := by
  obtain ⟨spliced, u, -, further⟩ := perform_bind_eq_ok performed
  exact parse_of_parsed further

theorem perform_attempt_ok {text : List Char} {α : Type} {part : Play α} {s t : Session} {a : α}
    (performed : part.perform s = (.ok a, t)) :
    (attempt frame text part).perform s = (.ok (some a), t) := by
  unfold attempt
  rw [perform_tryCatch, perform_map, performed]

theorem perform_attempt_error {text : List Char} {α : Type} {part : Play α} {s t : Session}
    {fault : Fault} (performed : part.perform s = (.error fault, t)) :
    ∃ u, (attempt frame text part).perform s =
      (if fault.failsCondition then .ok none else .error fault, u) := by
  unfold attempt
  rw [perform_tryCatch, perform_map, performed]
  dsimp only
  split
  · rw [warning, perform_bind_ok (perform_log ..)]
    exact ⟨_, rfl⟩
  · exact ⟨_, rfl⟩

theorem perform_attempt_cases {text : List Char} {α : Type} {part : Play α} {s t : Session}
    {a : α} (performed : (attempt frame text part).perform s = (.ok (some a), t)) :
    part.perform s = (.ok a, t) := by
  cases own : part.perform s with
  | mk outcome u =>
    cases outcome with
    | ok b =>
      rw [perform_attempt_ok own] at performed
      cases performed
      rfl
    | error fault =>
      obtain ⟨v, failed⟩ := perform_attempt_error own
      rw [performed] at failed
      split at failed <;> cases failed

/-! ### Deciding a condition -/

theorem parsed_consults (text : List Char) : Consults Deed.Inquires Allowed (parsed text) := by
  unfold parsed
  split
  · exact .pure _
  · exact .throw _

theorem evaluated_consults (refers : Refers Allowed) (frame : Frame) {written : String}
    (read : Expression.parse written = .ok e) :
    Consults Deed.Inquires Allowed (evaluate frame e) :=
  Expr.evaluate_consults e fun path mentioned =>
    lookup_consults frame (refers path (references_of_parse read path mentioned))

theorem spliced_consults (refers : Refers Allowed) (frame : Frame) (quote : Option Char)
    (placeholder : List Char) :
    Consults Deed.Inquires Allowed (spliced frame quote placeholder) := by
  refine .bind_given (parsed_consults _) fun s e t performed => .bind .get fun s => ?_
  obtain ⟨written, read⟩ := parse_of_parsed performed
  dsimp only
  split
  · exact .throw _
  · exact .bind (evaluated_consults refers frame read) fun _ => .bind (.fit _) fun _ => .pure _

theorem replaceEach_consults {f : List Char → Play (List Char)}
    (each : ∀ s, Consults Deed.Inquires Allowed (f s)) (pieces : List Text.Piece) :
    Consults Deed.Inquires Allowed (replaceEach f pieces) := by
  induction pieces with
  | nil => exact .pure _
  | cons piece rest ih =>
    cases piece with
    | plain c => exact .bind ih fun _ => .pure _
    | found s => exact .bind (each s) fun _ => .bind ih fun _ => .pure _

theorem expression_consults (refers : Refers Allowed) (frame : Frame) (text : List Char) :
    Consults Deed.Inquires Allowed (expression frame text) := by
  refine .bind (replaceEach_consults (fun literal => ?_) _) fun _ => parsed_consults _
  exact replaceEach_consults (fun _ => spliced_consults refers ..) _

theorem attempt_consults {α : Type} (frame : Frame) (text : List Char) {part : Play α}
    (consults : Consults Deed.Inquires Allowed part) :
    Consults Deed.Inquires Allowed (attempt frame text part) := by
  refine .tryCatch (.map _ consults) fun fault => ?_
  split
  · refine .bind (.log ?_) fun _ => .pure _
    simp [Deed.Inquires, Deed.Resolves, Deed.saysStuck, Text.startsWith, Text.after?]
  · exact .throw _

theorem decideExpr_consults (refers : Refers Allowed) (frame : Frame) (text : List Char)
    {written : String} (read : Expression.parse written = .ok e) :
    Consults Deed.Inquires Allowed (decideExpr frame text e) := by
  refine .bind .get fun s => ?_
  split
  · refine .bind (.log ?_) fun _ => .pure _
    cases frame.owner <;>
      simp [Deed.Inquires, Deed.Resolves, Deed.saysStuck, Text.startsWith, Text.after?,
        Owner.title]
  · refine .bind (attempt_consults frame text (evaluated_consults refers frame read))
      fun value => ?_
    cases value with
    | none => exact .pure _
    | some operand => exact .fit _

theorem decideText_consults (refers : Refers Allowed) (frame : Frame) (text : List Char) :
    Consults Deed.Inquires Allowed (decideText frame text) := by
  have reads := attempt_consults frame text (expression_consults refers frame text)
  refine .bind_given reads fun s found t attempted => ?_
  cases found with
  | none => exact .pure _
  | some e =>
    obtain ⟨written, read⟩ := parse_of_expression (perform_attempt_cases attempted)
    exact decideExpr_consults refers frame text read

theorem holds_consults (refers : Refers Allowed) (frame : Frame) (condition : Value) :
    Consults Deed.Inquires Allowed (holds frame condition) := by
  unfold holds
  split
  · exact .pure _
  · exact .pure _
  · refine .bind (.fit _) fun text => ?_
    split
    · exact .pure _
    · exact decideText_consults refers ..

end Condition

/-! ### The deeds of these plays -/

theorem fillValue_inquires (scope : Scope) (step : String) (value : Value) :
    Does Deed.Inquires (fillValue scope step value) :=
  (fillValue_consults scope step (.all value)).inquires

theorem resolveJobOutput_inquires (scope : Scope) (value : Value) :
    Does Deed.Inquires (resolveJobOutput scope value) :=
  (resolveJobOutput_consults scope (.all value)).inquires

theorem Matrix.expand_inquires (scope : Scope) (matrix : Value) :
    Does Deed.Inquires (expand scope matrix) :=
  (expand_consults scope (.all matrix) fun _ _ _ value _ _ => .all value).inquires

namespace Condition

theorem spliced_inquires (frame : Frame) (quote : Option Char) (placeholder : List Char) :
    Does Deed.Inquires (spliced frame quote placeholder) :=
  (spliced_consults .all frame quote placeholder).inquires

theorem expression_inquires (frame : Frame) (text : List Char) :
    Does Deed.Inquires (expression frame text) := (expression_consults .all frame text).inquires

theorem holds_inquires (frame : Frame) (condition : Value) :
    Does Deed.Inquires (holds frame condition) := (holds_consults .all frame condition).inquires

end Condition
end Rehearsal
