import Rehearsal.Proofs.Play.Yields
import Rehearsal.Run.Execute

/-! Two faults end a run on purpose: the user quits, or a required version does not match. All other
faults are ordinary. Finding values and recording the outputs of a job ends, if at all, with an
ordinary fault. -/

namespace Rehearsal

/-- That a fault is neither that the user quit nor that versions do not match. -/
def Fault.Ordinary : Fault → Prop
  | quit | mismatch _ => False
  | _ => True

theorem Fault.Ordinary.ne_quit {fault : Fault} (ordinary : fault.Ordinary) : fault ≠ .quit := by
  rintro rfl
  exact ordinary

theorem Fault.Ordinary.ne_mismatch {fault : Fault} (ordinary : fault.Ordinary)
    (m : VersionMismatch) : fault ≠ .mismatch m := by
  rintro rfl
  exact ordinary

/-- That a result is no fault but an ordinary one. -/
abbrev Settles {α : Type} (result : Except Fault α) : Prop :=
  Ends Fault.Ordinary (fun _ => True) result

/-- That a play ends with no fault but an ordinary one. -/
abbrev Ordinary {α : Type} (play : Play α) : Prop :=
  Yields (fun _ => True) Fault.Ordinary (fun _ => True) play

open Play

variable {α β : Type}

namespace Settles

theorem bind {result : Except Fault α} {next : α → Except Fault β} (first : Settles result)
    (rest : ∀ a, Settles (next a)) : Settles (result >>= next) := by
  cases result with
  | error fault => exact first
  | ok a => exact rest a

theorem orUnfit (result : Except Unfit α) : Settles (orUnfit result) := by
  cases result <;> trivial

theorem map {result : Except Fault α} (f : α → β) (first : Settles result) :
    Settles (result.map f) := by
  cases result with
  | error fault => exact first
  | ok a => trivial

end Settles

namespace Ordinary

theorem of_ok {play : Play α} (ends : ∀ s, ∃ a t, play.perform s = (.ok a, t)) :
    Ordinary play := by
  apply Yields.of_perform
  intro s _
  obtain ⟨a, t, performed⟩ := ends s
  exact ⟨a, t, performed, trivial, trivial⟩

theorem pure (a : α) : Ordinary (Pure.pure a : Play α) := of_ok fun s => ⟨a, s, rfl⟩

theorem bind {play : Play α} {next : α → Play β} (first : Ordinary play)
    (rest : ∀ a, Ordinary (next a)) : Ordinary (play >>= next) :=
  Yields.bind first fun a _ => rest a

theorem adopt {result : Except Fault α} (settles : Settles result) : Ordinary (adopt result) :=
  Yields.adopt settles

theorem fit (result : Except Unfit α) : Ordinary (fit result) := adopt (Settles.orUnfit result)

theorem get : Ordinary (MonadState.get : Play Session) := of_ok fun s => ⟨s, s, rfl⟩

theorem mask (text : String) : Ordinary (mask text) := of_ok fun s => ⟨_, s, rfl⟩

theorem change (f : Session → Session) : Ordinary (modify f : Play PUnit) :=
  of_ok fun s => ⟨⟨⟩, f s, rfl⟩

theorem log (level : Level) (message : String) : Ordinary (log level message) :=
  of_ok fun s => ⟨(), _, perform_log level message s⟩

theorem ask (question : Question) : Ordinary (ask question) := of_ok fun _ => ⟨_, _, rfl⟩

theorem freeText (text default : String) : Ordinary (freeText text default) :=
  bind (ask _) fun _ => pure _

theorem forIn {items : List α} {f : α → PUnit → Play (ForInStep PUnit)} {init : PUnit}
    (each : ∀ a, Ordinary (f a init)) : Ordinary (ForIn.forIn items init f) :=
  Yields.forIn fun a _ => each a

theorem mapM {items : List α} {f : α → Play β} (each : ∀ a, Ordinary (f a)) :
    Ordinary (items.mapM f) :=
  (Yields.mapM fun a _ => each a).mono (fun _ _ => trivial) fun _ => id

end Ordinary

/-! ### Choosing from a menu -/

theorem chosen?_settles (options : List String) (answer : String) :
    Settles (chosen? options answer) := by
  unfold chosen?
  dsimp only
  split
  · split
    · trivial
    · split
      · trivial
      · split <;> trivial
  · trivial

theorem chooseWithin_ordinary (options : List String) (tries : Nat) :
    Ordinary (chooseWithin options tries) := by
  induction tries with
  | zero => exact .throw trivial
  | succ tries ih =>
    refine .bind (.ask _) fun answer => .bind (.adopt (chosen?_settles ..)) fun option => ?_
    cases option with
    | some option => exact .pure _
    | none => exact .bind (.change _) fun _ => ih

theorem choose_ordinary (text : String) (options : List String) :
    Ordinary (choose text options) := by
  refine .bind (.change _) fun _ => .bind (.forIn fun entry => ?_) fun _ => ?_
  · exact .bind (.change _) fun _ => .pure _
  · exact .bind .get fun s => chooseWithin_ordinary ..

/-! ### Expressions -/

theorem announced_ordinary (expression value : String) :
    Ordinary (Resolve.announced expression value) := .bind (.log ..) fun _ => .pure _

theorem normalizeJson_ordinary (inner text : String) :
    Ordinary (Resolve.normalizeJson inner text) := by
  unfold Resolve.normalizeJson
  split
  · exact announced_ordinary ..
  · exact .bind (.fit _) fun _ => .bind (.log ..) fun _ => .pure _

theorem environmentValue?_settles (workflow : Mapping) (name : String) :
    Settles (environmentValue? workflow name) := by
  unfold environmentValue?
  split
  · trivial
  · dsimp only
    split
    · trivial
    · split <;> trivial

theorem fromSource_ordinary (workflow : Mapping) (expression : String) (source : Source) :
    Ordinary (Resolve.fromSource workflow expression source) := by
  have asked (text default : String) : Ordinary (do
      Resolve.announced expression (← freeText text default)) :=
    .bind (.freeText ..) fun _ => announced_ordinary ..
  unfold Resolve.fromSource
  cases source with
  | menu options => exact .bind (choose_ordinary ..) fun _ => announced_ordinary ..
  | secret name =>
    exact .bind (.ask _) fun _ => .bind (.change _) fun _ => .bind (.log ..) fun _ => .pure _
  | environment name =>
    refine .bind (.adopt (environmentValue?_settles ..)) fun value => ?_
    cases value with
    | some value => exact .bind (.fit _) fun _ => announced_ordinary ..
    | none => exact asked ..
  | output job name =>
    refine .bind .get fun s => ?_
    split
    · exact .bind (.log ..) fun _ => .pure _
    · exact asked ..
  | _ => exact asked ..

theorem resolve_ordinary (workflow : Mapping) (expression : String) :
    Ordinary (resolve workflow expression) := by
  unfold resolve
  refine .bind .get fun s => ?_
  split
  · exact .pure _
  · extract_lets kept
    have keeps (value : String) : Ordinary (kept value) := .bind (.change _) fun _ => .pure value
    split
    · next inner own =>
      have shorter : inner.length < expression.length := Source.length_lt_of_json own
      exact .bind (resolve_ordinary workflow (String.ofList inner)) fun _ =>
        .bind (normalizeJson_ordinary ..) keeps
    · exact .bind (fromSource_ordinary ..) keeps
termination_by expression.length
decreasing_by simpa using shorter

theorem resolveStepOutput_ordinary (job : Scalar) (expression : String) :
    Ordinary (resolveStepOutput job expression) := by
  refine .bind .get fun s => ?_
  dsimp only
  split
  · split
    · exact .pure _
    · exact .freeText ..
  · exact .freeText ..

theorem substitute_ordinary (scope : Scope) (expression : String) :
    Ordinary (substitute scope expression) := by
  unfold substitute
  split
  · exact .bind (.fit _) fun _ => announced_ordinary ..
  · split
    · refine .bind (resolveStepOutput_ordinary ..) fun value => ?_
      dsimp only
      split
      · exact .bind (.log ..) fun _ => .pure _
      · exact .pure _
    · exact resolve_ordinary ..

theorem fillWith_ordinary (scope : Scope) (step : String) (expressions : List String)
    (text : List Char) : Ordinary (fillWith scope step expressions text) := by
  induction expressions generalizing text with
  | nil => exact .pure text
  | cons expression rest ih =>
    exact .bind (substitute_ordinary ..) fun _ => .bind (.log ..) fun _ => ih _

theorem fill_ordinary (scope : Scope) (step text : String) : Ordinary (fill scope step text) :=
  .bind (fillWith_ordinary ..) fun _ => .pure _

theorem fillValue_ordinary (scope : Scope) (step : String) (value : Value) :
    Ordinary (fillValue scope step value) := .bind (.fit _) fun _ => fill_ordinary ..

theorem resolveJobOutput_ordinary (scope : Scope) (value : Value) :
    Ordinary (resolveJobOutput scope value) := by
  refine .bind (.fit _) fun text => ?_
  dsimp only
  split
  · split
    · refine .bind .get fun s => ?_
      split
      · exact .bind (.log ..) fun _ => .pure _
      · exact .freeText ..
    · exact fill_ordinary ..
  · exact fill_ordinary ..

/-! ### Matrices -/

namespace Matrix

theorem resolveJson_ordinary (scope : Scope) (text : String) :
    Ordinary (resolveJson scope text) := by
  refine .bind (fill_ordinary ..) fun resolved => ?_
  split <;> exact .pure _

theorem statedEntries_ordinary (scope : Scope) (value : Value) :
    Ordinary (statedEntries scope value) := by
  unfold statedEntries
  extract_lets listed
  have lists (value : Value) : Ordinary (listed value) := by
    dsimp only [listed]
    split <;> exact .pure _
  split
  · exact .bind (resolveJson_ordinary ..) lists
  · exact .bind (.pure _) lists

theorem axisValues_ordinary (scope : Scope) (value : Value) :
    Ordinary (axisValues scope value) := by
  unfold axisValues
  extract_lets listed
  have lists (value : Value) : Ordinary (listed value) := by
    dsimp only [listed]
    split <;> exact .pure _
  split
  · split
    · exact .bind (resolveJson_ordinary ..) lists
    · exact .bind (.pure _) lists
  · exact .bind (.pure _) lists

theorem logCombinations_ordinary (combinations : List Mapping) :
    Ordinary (logCombinations combinations) := by
  refine .bind (.log ..) fun _ => .bind (.forIn fun entry => ?_) fun _ => .pure _
  exact .bind (.fit _) fun _ => .bind (.log ..) fun _ => .pure _

theorem expandMapping_ordinary (scope : Scope) (matrix : Mapping) :
    Ordinary (expandMapping scope matrix) := by
  refine .bind (statedEntries_ordinary ..) fun included =>
    .bind (statedEntries_ordinary ..) fun excluded =>
    .bind (.mapM fun entry => ?_) fun axes => ?_
  · exact .bind (axisValues_ordinary ..) fun _ => .pure _
  · dsimp only
    split
    · exact .bind (.fit _) fun job => .bind (.log ..) fun _ => .pure _
    · exact .bind (logCombinations_ordinary _) fun _ => .pure _

theorem expand_ordinary (scope : Scope) (matrix : Value) : Ordinary (expand scope matrix) := by
  unfold expand
  extract_lets expanded
  have expands (matrix : Value) : Ordinary (expanded matrix) := by
    dsimp only [expanded]
    split
    · exact .bind (logCombinations_ordinary _) fun _ => .pure _
    · exact expandMapping_ordinary ..
    · exact .bind (.log ..) fun _ => .pure _
  split
  · exact .pure _
  · split
    · exact .bind (resolveJson_ordinary ..) expands
    · exact .bind (.pure _) expands

end Matrix

/-! ### Conditions -/

namespace Functions

theorem constant_settles (b : Bool) (operands : List Operand) : Settles (constant b operands) := by
  unfold constant
  split <;> trivial

theorem stringTest_settles (test : List Char → List Char → Bool) (operands : List Operand) :
    Settles (stringTest test operands) := by
  unfold stringTest
  split
  · split <;> trivial
  all_goals trivial

theorem fromJson_settles (operands : List Operand) : Settles (fromJson operands) := by
  unfold fromJson
  split
  · split
    · split <;> trivial
    · trivial
  · trivial

theorem toJson_settles (operands : List Operand) : Settles (toJson operands) := by
  unfold toJson
  split
  · exact .map _ (.orUnfit _)
  · trivial

theorem builtin_settles {name : String} {function : List Operand → Except Fault Operand}
    (found : builtin name = some function) (operands : List Operand) :
    Settles (function operands) := by
  unfold builtin at found
  split at found <;> cases found
  · exact constant_settles ..
  · exact constant_settles ..
  · exact constant_settles ..
  · exact constant_settles ..
  · exact stringTest_settles ..
  · exact stringTest_settles ..
  · exact stringTest_settles ..
  · exact fromJson_settles _
  · exact toJson_settles _

end Functions

namespace Expr

variable {lookup : String → Evaluation Session Operand}

theorem adopt_ordinary {result : Except Fault α} (settles : Settles result) :
    Ordinary (Evaluation.adopt result : Play α) := by
  cases result with
  | ok a => exact .pure a
  | error fault => exact .throw settles

theorem truth_ordinary (operand : Operand) : Ordinary (Evaluation.truth operand : Play Bool) :=
  adopt_ordinary (.orUnfit _)

mutual

theorem evaluate_ordinary (looks : ∀ path, Ordinary (lookup path : Play Operand)) :
    ∀ e : Expr, Ordinary (e.evaluate Functions.builtin lookup : Play Operand)
  | .literal value => .pure _
  | .reference path => looks path
  | .call name arguments => by
    unfold evaluate
    split
    · exact .throw trivial
    · next function found =>
      exact .bind (evaluateAll_ordinary looks arguments) fun operands =>
        adopt_ordinary (Functions.builtin_settles found operands)
  | .not operand => by
    unfold evaluate
    exact .bind (evaluate_ordinary looks operand) fun _ => .bind (truth_ordinary _) fun _ => .pure _
  | .binary op left right => by
    have first := evaluate_ordinary looks left
    have second := evaluate_ordinary looks right
    cases op with
    | and =>
      unfold evaluate
      refine .bind first fun value => .bind (truth_ordinary _) fun holds => ?_
      cases holds with
      | true => exact second
      | false => exact .pure _
    | or =>
      unfold evaluate
      refine .bind first fun value => .bind (truth_ordinary _) fun holds => ?_
      cases holds with
      | true => exact .pure _
      | false => exact second
    | _ =>
      unfold evaluate
      exact .bind first fun _ => .bind second fun _ =>
        .bind (adopt_ordinary (.orUnfit _)) fun _ => .pure _

theorem evaluateAll_ordinary (looks : ∀ path, Ordinary (lookup path : Play Operand)) :
    ∀ es : List Expr, Ordinary (evaluateAll Functions.builtin lookup es : Play (List Operand))
  | [] => .pure _
  | e :: es => by
    unfold evaluateAll
    exact .bind (evaluate_ordinary looks e) fun _ =>
      .bind (evaluateAll_ordinary looks es) fun _ => .pure _

end

end Expr

namespace Condition

theorem lookup_ordinary (frame : Frame) (path : String) : Ordinary (lookup frame path) := by
  refine .bind .get fun s => ?_
  extract_lets context resolved bound
  have resolves : Ordinary (resolved ()) := by
    dsimp only [resolved]
    split
    · exact .bind (resolve_ordinary ..) fun _ => .pure _
    · exact .throw trivial
  have binds : Ordinary (bound ()) := by
    dsimp only [bound]
    split
    · split
      · exact .pure _
      · exact resolves
    · exact resolves
  split
  · exact .pure _
  · split
    · exact .pure _
    · split
      · split
        · exact .pure _
        · exact binds
      · exact binds

theorem evaluated_ordinary (frame : Frame) (e : Expr) : Ordinary (evaluate frame e) :=
  Expr.evaluate_ordinary (lookup_ordinary frame) e

theorem parsed_ordinary (text : List Char) : Ordinary (parsed text) := by
  unfold parsed
  split
  · exact .pure _
  · exact .throw trivial

theorem spliced_ordinary (frame : Frame) (quote : Option Char) (placeholder : List Char) :
    Ordinary (spliced frame quote placeholder) := by
  refine .bind (parsed_ordinary _) fun e => .bind .get fun s => ?_
  dsimp only
  split
  · exact .throw trivial
  · exact .bind (evaluated_ordinary ..) fun _ => .bind (.fit _) fun _ => .pure _

theorem replaceEach_ordinary {f : List Char → Play (List Char)} (each : ∀ s, Ordinary (f s))
    (pieces : List Text.Piece) : Ordinary (replaceEach f pieces) := by
  induction pieces with
  | nil => exact .pure _
  | cons piece rest ih =>
    cases piece with
    | plain c => exact .bind ih fun _ => .pure _
    | found s => exact .bind (each s) fun _ => .bind ih fun _ => .pure _

theorem expression_ordinary (frame : Frame) (text : List Char) :
    Ordinary (expression frame text) :=
  .bind (replaceEach_ordinary (fun _ => replaceEach_ordinary (spliced_ordinary frame _) _) _)
    fun _ => parsed_ordinary _

theorem attempt_ordinary (frame : Frame) (text : List Char) {part : Play α}
    (ordinary : Ordinary part) : Ordinary (attempt frame text part) := by
  refine .tryCatch (ordinary.map fun _ _ => trivial) fun fault own => ?_
  split
  · exact Ordinary.bind (.log ..) fun _ => .pure _
  · exact .throw own

theorem decideText_ordinary (frame : Frame) (text : List Char) :
    Ordinary (decideText frame text) := by
  refine .bind (attempt_ordinary _ _ (expression_ordinary ..)) fun e => ?_
  cases e with
  | none => exact .pure _
  | some e =>
    refine .bind .get fun s => ?_
    split
    · exact .bind (.log ..) fun _ => .pure _
    · refine .bind (attempt_ordinary _ _ (evaluated_ordinary ..)) fun operand => ?_
      cases operand with
      | none => exact .pure _
      | some operand => exact .fit _

theorem holds_ordinary (frame : Frame) (condition : Value) : Ordinary (holds frame condition) := by
  unfold holds
  split
  · exact .pure _
  · exact .pure _
  · refine .bind (.fit _) fun text => ?_
    split
    · exact .pure _
    · exact decideText_ordinary ..

end Condition

/-! ### Settings of steps -/

namespace Step

theorem member_settles (name : String) (v : Value) : Settles (member name v) := by
  unfold member
  split <;> trivial

theorem name_settles (step : Value) (index : Nat) : Settles (name step index) := by
  refine .bind (member_settles ..) fun stated => ?_
  split
  · exact .orUnfit _
  · trivial

theorem id_settles (step : Value) (index : Nat) : Settles (id step index) := by
  refine .bind (member_settles ..) fun stated => ?_
  split
  · exact .orUnfit _
  · exact .bind (name_settles ..) fun _ => trivial

theorem directory_ordinary (site : Site) (step : Value) (stepId : String) :
    Ordinary (directory site step stepId) := by
  refine .bind (.adopt (member_settles ..)) fun own => ?_
  dsimp only
  split
  · exact .pure _
  · exact .bind (fillValue_ordinary ..) fun _ => .pure _

theorem fillEntries_ordinary (scope : Scope) (stepId : String) (entries : List (Scalar × Value)) :
    Ordinary (fillEntries scope stepId entries) := by
  induction entries with
  | nil => exact .pure _
  | cons entry rest ih =>
    exact .bind (.fit _) fun _ => .bind (fillValue_ordinary ..) fun _ => .bind ih fun _ => .pure _

theorem statedVariables_ordinary (scope : Scope) (stepId : String) (environment : Value) :
    Ordinary (statedVariables scope stepId environment) := by
  unfold statedVariables
  split
  · exact .bind (fillEntries_ordinary ..) fun _ => .pure _
  · exact .pure _

theorem environment_ordinary (site : Site) (step : Value) (stepId : String) :
    Ordinary (environment site step stepId) :=
  .bind (statedVariables_ordinary ..) fun _ => .bind (.adopt (member_settles ..)) fun _ =>
    .bind (statedVariables_ordinary ..) fun _ => .pure _

theorem inputs_ordinary (site : Site) (step : Value) (stepId : String) :
    Ordinary (inputs site step stepId) := by
  refine .bind (.adopt (member_settles ..)) fun stated => ?_
  split
  · exact .pure _
  · split
    · exact .bind (fillEntries_ordinary ..) fun _ => .pure _
    · exact .throw trivial

theorem call_ordinary (m : Mock) (invocation : Invocation) :
    Ordinary (Registry.call m invocation) := .of_ok fun s => ⟨_, _, perform_call m invocation s⟩

end Step

/-! ### Jobs -/

namespace Job

theorem fillVariables_ordinary (scope : Scope) (entries : List (Scalar × Value)) :
    Ordinary (fillVariables scope entries) := by
  induction entries with
  | nil => exact .pure _
  | cons entry rest ih =>
    exact .bind (.fit _) fun _ => .bind (fillValue_ordinary ..) fun _ => .bind (.mask _) fun _ =>
      .bind (.log ..) fun _ => .bind ih fun _ => .pure _

theorem environment_ordinary (scope : Scope) (definition : Mapping) :
    Ordinary (environment scope definition) := by
  unfold environment
  split
  · exact .bind (.log ..) fun _ => .bind (fillVariables_ordinary ..) fun _ => .pure _
  · exact .pure _

theorem recordEach_ordinary (scope : Scope) (outputs : List (Scalar × Value)) :
    Ordinary (recordEach scope outputs) := by
  induction outputs with
  | nil => exact .pure _
  | cons output rest ih =>
    exact .bind (resolveJobOutput_ordinary ..) fun _ => .bind (.fit _) fun _ =>
      .bind (.change _) fun _ => .bind (.mask _) fun _ => .bind (.log ..) fun _ => ih

theorem recordOutputs_ordinary (scope : Scope) (definition : Mapping) :
    Ordinary (recordOutputs scope definition) := by
  unfold recordOutputs
  split
  · exact .bind (.log ..) fun _ => recordEach_ordinary ..
  · exact .pure _

theorem steps_settles (definition : Mapping) : Settles (steps definition) := by
  unfold steps
  dsimp only
  split
  · trivial
  · split <;> trivial

theorem startedStep_settles (step : Value) (index : Nat) : Settles (startedStep step index) := by
  refine .bind (Step.name_settles ..) fun name => .bind (Step.member_settles ..) fun command => ?_
  split
  · trivial
  · exact .bind (.orUnfit _) fun _ => trivial

theorem needs_settles (job : Value) : Settles (needs job) := by
  unfold needs neededNames
  split
  · trivial
  · split
    · trivial
    · exact .orUnfit _
    · exact .orUnfit _
    · exact .orUnfit _
    · trivial
    · trivial

end Job

/-! ### Runs -/

namespace Run

theorem jobs_settles (workflow : Mapping) : Settles (jobs workflow) := by
  unfold jobs
  dsimp only
  split
  · trivial
  · split <;> trivial

theorem stringNames_settles (names : List Scalar) : Settles (stringNames names) := by
  induction names with
  | nil => trivial
  | cons name rest ih =>
    cases name with
    | str text => exact .bind ih fun _ => trivial
    | _ => trivial

theorem reportStuck_ordinary (jobs : Mapping) : Ordinary (reportStuck jobs) :=
  .bind .get fun _ => .bind (.adopt (stringNames_settles _)) fun _ => .bind (.log ..) fun _ =>
    .log ..

end Run
end Rehearsal
