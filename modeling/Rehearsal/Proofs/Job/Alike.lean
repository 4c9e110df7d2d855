import Rehearsal.Condition
import Rehearsal.Matrix
import Rehearsal.Proofs.Play.Alike
import Rehearsal.Proofs.Workflow.Needs

/-! Expressions, texts, outputs of jobs, matrices and conditions come to the same in related
sessions whose relation likens them. For texts and matrices it is enough that the relation
`Tallies`: that the expressions in them come to the same. -/

namespace Rehearsal

open Play

variable {job : Option Scalar} {R : Session → Session → Prop}

/-! ### Expressions -/

theorem freeText_alike (agrees : Agrees job R) (text default : String) :
    Alike R (freeText text default) := .bind (.ask agrees _) fun _ => .pure _

theorem announced_alike (agrees : Agrees job R) (expression value : String) :
    Alike R (Resolve.announced expression value) := .bind (.info agrees _) fun _ => .pure _

theorem chooseWithin_alike (agrees : Agrees job R) (options : List String) (tries : Nat) :
    Alike R (chooseWithin options tries) := by
  induction tries with
  | zero => exact .throw _
  | succ tries ih =>
    refine .bind (.ask agrees _) fun answer => .bind (.adopt _) fun chosen => ?_
    cases chosen with
    | some option => exact .pure option
    | none => exact .bind (.echo agrees _) fun _ => ih

theorem choose_alike (agrees : Agrees job R) (text : String) (options : List String) :
    Alike R (choose text options) := by
  refine .bind (.echo agrees _) fun _ => .bind (.forIn fun _ _ => ?_) fun _ => ?_
  · exact .bind (.echo agrees _) fun _ => .pure _
  · refine .get_bind (fun related => ?_) fun s => chooseWithin_alike agrees ..
    rw [agrees.answers related]

theorem normalizeJson_alike (agrees : Agrees job R) (inner text : String) :
    Alike R (Resolve.normalizeJson inner text) := by
  unfold Resolve.normalizeJson
  split
  · exact announced_alike agrees ..
  · exact .bind (.fit _) fun _ => .bind (.info agrees _) fun _ => .pure _

theorem fromSource_alike (agrees : Agrees job R) (workflow : Mapping) (expression : String)
    (source : Source) : Alike R (Resolve.fromSource workflow expression source) := by
  have asked (text default : String) :
      Alike R (freeText text default >>= Resolve.announced expression) :=
    .bind (freeText_alike agrees ..) fun _ => announced_alike agrees ..
  cases source with
  | menu options => exact .bind (choose_alike agrees ..) fun _ => announced_alike agrees ..
  | secret name =>
    refine .bind (.ask agrees _) fun value =>
      .bind ?_ fun _ => .bind (.info agrees _) fun _ => .pure _
    exact .of_deed (.register value) (fun _ => rfl) (fun _ => rfl) (agrees.deed trivial)
  | environment name =>
    refine .bind (.adopt _) fun found => ?_
    cases found with
    | some value => exact .bind (.fit _) fun _ => announced_alike agrees ..
    | none => exact asked ..
  | output owner name =>
    refine .get_bind (fun related => ?_) fun s => ?_
    · rw [agrees.jobOutput? related]
    · split
      · exact .bind (.info agrees _) fun _ => .pure _
      · exact asked ..
  | _ => exact asked ..

theorem resolve_alike (likens : Likens job R) (workflow : Mapping) (expression : String) :
    Alike R (resolve workflow expression) := by
  rw [resolve]
  refine .get_bind (fun related => by rw [likens.resolved related]) fun s => ?_
  have keeps (value : String) : Alike R (do
      modifyContext (Context.remember expression value)
      return value : Play String) := by
    refine .bind ?_ fun _ => .pure _
    exact .of_deed (.remember expression value) (fun _ => rfl) (fun _ => rfl) (likens.remember _ _)
  split
  · exact .pure _
  · split
    · next inner own =>
      have shorter := Source.length_lt_of_json own
      have inside := resolve_alike likens workflow (String.ofList inner)
      exact .bind inside fun _ => .bind (normalizeJson_alike likens.toAgrees ..) keeps
    · exact .bind (fromSource_alike likens.toAgrees ..) keeps
termination_by expression.length
decreasing_by simpa using shorter

/-! ### Texts -/

theorem resolveStepOutput_alike {owner : Scalar} (agrees : Agrees (some owner) R)
    (expression : String) : Alike R (resolveStepOutput owner expression) := by
  have asked : Alike R
      (freeText ("Enter value for step output '" ++ expression ++ "'") "output-value") :=
    freeText_alike agrees ..
  refine .get_bind (fun related => ?_) fun s => ?_
  · simp only [agrees.steps related owner rfl]
  · dsimp only
    split
    · split
      · exact .pure _
      · exact asked
    · exact asked

variable {scope : Scope} {Allowed : String → Prop}

/-- That expressions of some sort come to the same in related sessions, whose answers and outputs
are the same. -/
structure Tallies (scope : Scope) (Allowed : String → Prop) (R : Session → Session → Prop) : Prop
    extends Agrees (some scope.job) R where
  resolve : ∀ expression, Allowed expression → Alike R (resolve scope.workflow expression)

theorem Likens.tallies (likens : Likens (some scope.job) R) :
    Tallies scope (fun _ => True) R where
  toAgrees := likens.toAgrees
  resolve expression _ := resolve_alike likens scope.workflow expression

namespace Tallies

theorem substitute (tallies : Tallies scope Allowed R) {expression : String}
    (allowed : Allowed expression) : Alike R (substitute scope expression) := by
  unfold Rehearsal.substitute
  split
  · exact .bind (.fit _) fun _ => announced_alike tallies.toAgrees ..
  · split
    · refine .bind (resolveStepOutput_alike tallies.toAgrees _) fun value => ?_
      dsimp only
      split
      · exact .bind (.info tallies.toAgrees _) fun _ => .pure _
      · exact .pure _
    · exact tallies.resolve _ allowed

theorem fillWith (tallies : Tallies scope Allowed R) (step : String) {expressions : List String}
    (allowed : ∀ expression ∈ expressions, Allowed expression) (text : List Char) :
    Alike R (fillWith scope step expressions text) := by
  induction expressions generalizing text with
  | nil => exact .pure text
  | cons expression rest ih =>
    obtain ⟨own, others⟩ := List.forall_mem_cons.mp allowed
    exact .bind (tallies.substitute own) fun _ => .bind (.log tallies.toAgrees ..) fun _ =>
      ih others _

theorem fill (tallies : Tallies scope Allowed R) (step : String) {text : String}
    (allowed : ∀ expression ∈ Expression.Placeholder.extract text, Allowed expression) :
    Alike R (fill scope step text) :=
  .bind (tallies.fillWith step allowed _) fun _ => .pure _

end Tallies

theorem fill_alike (likens : Likens (some scope.job) R) (step text : String) :
    Alike R (fill scope step text) := likens.tallies.fill step fun _ _ => trivial

theorem fillValue_alike (likens : Likens (some scope.job) R) (step : String) (value : Value) :
    Alike R (fillValue scope step value) :=
  .bind (.fit _) fun _ => fill_alike likens ..

theorem resolveJobOutput_alike (likens : Likens (some scope.job) R) (value : Value) :
    Alike R (resolveJobOutput scope value) := by
  refine .bind (.fit _) fun text => ?_
  have filled := fill_alike likens "job-outputs" text
  dsimp only
  split
  · split
    · refine .get_bind (fun related => ?_) fun s => ?_
      · simp only [likens.steps related scope.job rfl]
      · split
        · exact .bind (.info likens.toAgrees _) fun _ => .pure _
        · exact freeText_alike likens.toAgrees ..
    · exact filled
  · exact filled

/-! ### Matrices -/

namespace Matrix

/-- That an expression stands in a text among the entries of a matrix. -/
def Names (matrix : Mapping) (expression : String) : Prop :=
  ∃ entry ∈ matrix, ∃ text, entry.2 = .str text ∧
    expression ∈ Expression.Placeholder.extract text

def expandStated (scope : Scope) (matrix : Value) : Play (List Mapping) :=
  match matrix.opened with
  | .list items => do
    logCombinations (mappings items)
    return mappings items
  | .map entries => expandMapping scope entries
  | value => do
    warning ("Ignoring matrix of unsupported type " ++ value.kindName)
    return [[]]

theorem expand_of_text {text : String} (present : (Value.str text).isPresent = true) :
    expand scope (.str text) = (do expandStated scope (← resolveJson scope text)) := by
  rw [expand, present]
  rfl

theorem expand_of_stated {matrix : Value} (present : matrix.isPresent = true)
    (stated : ∀ text, matrix ≠ .str text) : expand scope matrix = expandStated scope matrix := by
  rw [expand, present]
  cases matrix with
  | scalar s =>
    cases s with
    | str text => exact absurd rfl (stated text)
    | _ => rfl
  | _ => rfl

end Matrix

namespace Tallies

open Rehearsal.Matrix

theorem resolveJson (tallies : Tallies scope Allowed R) {text : String}
    (allowed : ∀ expression ∈ Expression.Placeholder.extract text, Allowed expression) :
    Alike R (resolveJson scope text) := by
  refine .bind (tallies.fill "matrix" allowed) fun resolved => ?_
  split
  · exact .pure _
  · exact .pure _

theorem statedEntries (tallies : Tallies scope Allowed R) {value : Value}
    (allowed : ∀ text, value = .str text →
      ∀ expression ∈ Expression.Placeholder.extract text, Allowed expression) :
    Alike R (statedEntries scope value) := by
  unfold Matrix.statedEntries
  extract_lets listed
  have lists (value : Value) : Alike R (listed value) := by
    dsimp only [listed]
    split
    · exact .pure _
    · exact .pure _
  split
  · exact .bind (tallies.resolveJson (allowed _ rfl)) lists
  · exact .bind (.pure _) lists

theorem axisValues (tallies : Tallies scope Allowed R) {value : Value}
    (allowed : ∀ text, value = .str text →
      ∀ expression ∈ Expression.Placeholder.extract text, Allowed expression) :
    Alike R (axisValues scope value) := by
  unfold Matrix.axisValues
  extract_lets listed
  have lists (value : Value) : Alike R (listed value) := by
    dsimp only [listed]
    split
    · exact .pure _
    · exact .pure _
  split
  · split
    · exact .bind (tallies.resolveJson (allowed _ rfl)) lists
    · exact .bind (.pure _) lists
  · exact .bind (.pure _) lists

theorem logCombinations (tallies : Tallies scope Allowed R) (combinations : List Mapping) :
    Alike R (logCombinations combinations) := by
  refine .bind (.info tallies.toAgrees _) fun _ => .bind (.forIn fun _ _ => ?_) fun _ => .pure _
  exact .bind (.fit _) fun _ => .bind (.info tallies.toAgrees _) fun _ => .pure _

theorem expandMapping (tallies : Tallies scope Allowed R) {matrix : Mapping}
    (allowed : ∀ expression, Names matrix expression → Allowed expression) :
    Alike R (expandMapping scope matrix) := by
  have entry {key : Scalar} {value : Value} (member : (key, value) ∈ matrix) :
      ∀ text, value = .str text →
        ∀ expression ∈ Expression.Placeholder.extract text, Allowed expression :=
    fun text same expression inside => allowed expression ⟨_, member, text, same, inside⟩
  have stated (name : String) : Alike R
      (Matrix.statedEntries scope ((Table.find? (.str name) matrix).getD .null)) := by
    refine tallies.statedEntries ?_
    cases found : Table.find? (.str name) matrix with
    | none => exact nofun
    | some value =>
      obtain ⟨spelling, member, -⟩ := Table.mem_of_find?_eq_some found
      exact entry member
  refine .bind (stated _) fun included => .bind (stated _) fun excluded =>
    .bind (.mapM fun axis member => ?_) fun axes => ?_
  · exact .bind (tallies.axisValues (entry (List.mem_filter.mp member).1)) fun _ => .pure _
  · dsimp only
    split
    · exact .bind (.fit _) fun _ => .bind (.log tallies.toAgrees ..) fun _ => .pure _
    · exact .bind (tallies.logCombinations _) fun _ => .pure _

theorem expandStated (tallies : Tallies scope Allowed R) {matrix : Value}
    (allowed : ∀ entries, matrix.opened = .map entries →
      ∀ expression, Names entries expression → Allowed expression) :
    Alike R (expandStated scope matrix) := by
  unfold Matrix.expandStated
  split
  · exact .bind (tallies.logCombinations _) fun _ => .pure _
  · next entries opened => exact tallies.expandMapping (allowed entries opened)
  · exact .bind (.log tallies.toAgrees ..) fun _ => .pure _

end Tallies

theorem Matrix.expand_alike (likens : Likens (some scope.job) R) (matrix : Value) :
    Alike R (expand scope matrix) := by
  have stated (matrix : Value) : Alike R (expandStated scope matrix) :=
    likens.tallies.expandStated fun _ _ _ _ => trivial
  cases present : matrix.isPresent with
  | false =>
    rw [expand, present]
    exact .pure _
  | true =>
    by_cases text : ∃ text, matrix = .str text
    · obtain ⟨text, rfl⟩ := text
      rw [expand_of_text present]
      exact .bind (likens.tallies.resolveJson fun _ _ => trivial) stated
    · rw [expand_of_stated present (not_exists.mp text)]
      exact stated matrix

/-! ### Evaluating an expression -/

namespace Expr

variable {functions : Functions} {lookup : String → Evaluation Session Operand}

theorem adopt_alike {α : Type} (result : Except Fault α) :
    Alike R (Evaluation.adopt result : Play α) := by
  cases result with
  | ok a => exact .pure a
  | error fault => exact .throw fault

mutual

theorem evaluate_alike (found : ∀ path, Alike R (lookup path : Play Operand)) :
    ∀ e : Expr, Alike R (e.evaluate functions lookup : Play Operand)
  | .literal value => .pure _
  | .reference path => found path
  | .call name arguments => by
    unfold evaluate
    split
    · exact .throw _
    · exact .bind (evaluateAll_alike found arguments) fun _ => adopt_alike _
  | .not operand => by
    unfold evaluate
    exact .bind (evaluate_alike found operand) fun _ => .bind (adopt_alike _) fun _ =>
      .pure _
  | .binary op left right => by
    have first := evaluate_alike found left
    have second := evaluate_alike found right
    cases op with
    | and =>
      unfold evaluate
      refine .bind first fun value => .bind (adopt_alike _) fun holds => ?_
      cases holds with
      | true => exact second
      | false => exact .pure _
    | or =>
      unfold evaluate
      refine .bind first fun value => .bind (adopt_alike _) fun holds => ?_
      cases holds with
      | true => exact .pure _
      | false => exact second
    | _ =>
      unfold evaluate
      exact .bind first fun _ => .bind second fun _ => .bind (adopt_alike _) fun _ => .pure _

theorem evaluateAll_alike (found : ∀ path, Alike R (lookup path : Play Operand)) :
    ∀ es : List Expr, Alike R (evaluateAll functions lookup es : Play (List Operand))
  | [] => .pure _
  | e :: es => by
    unfold evaluateAll
    exact .bind (evaluate_alike found e) fun _ => .bind (evaluateAll_alike found es)
      fun _ => .pure _

end

end Expr

/-! ### Conditions -/

namespace Condition

theorem missing?_eq (likens : Likens job R) {s t : Session} (related : R s t) (e : Expr) :
    missing? t.context job e = missing? s.context job e := by
  have same : missingAt? t.context job = missingAt? s.context job := by
    funext path
    simp only [missingAt?, likens.toAgrees.jobOutput? related]
    cases job with
    | none => rfl
    | some owner => simp only [Option.bind_some, likens.steps related owner rfl]
  rw [missing?, missing?, same]

variable {frame : Frame}

theorem lookup_alike (likens : Likens frame.owner.stepsOf? R) (path : String) :
    Alike R (lookup frame path) := by
  refine .get_bind (fun related => ?_) fun s => ?_
  · simp only [likens.toAgrees.jobOutput? related]
    cases owner : frame.owner.stepsOf? with
    | none => rfl
    | some job => simp only [likens.steps related job owner]
  · extract_lets context resolved bound
    split
    · exact .pure _
    · split
      · exact .pure _
      · have resolves : Alike R (resolved ()) := by
          dsimp only [resolved]
          split
          · exact .bind (resolve_alike likens ..) fun _ => .pure _
          · exact .throw _
        have binds : Alike R (bound ()) := by
          dsimp only [bound]
          split
          · split
            · exact .pure _
            · exact resolves
          · exact resolves
        split
        · split
          · exact .pure _
          · exact binds
        · exact binds

theorem evaluate_alike (likens : Likens frame.owner.stepsOf? R) (e : Expr) :
    Alike R (evaluate frame e) :=
  Expr.evaluate_alike (lookup_alike likens) e

theorem parsed_alike (text : List Char) : Alike R (parsed text) := by
  unfold parsed
  split
  · exact .pure _
  · exact .throw _

theorem spliced_alike (likens : Likens frame.owner.stepsOf? R) (quote : Option Char)
    (placeholder : List Char) : Alike R (spliced frame quote placeholder) := by
  refine .bind (parsed_alike _) fun e => .get_bind (fun related => ?_) fun s => ?_
  · rw [missing?_eq likens related]
  · dsimp only
    split
    · exact .throw _
    · exact .bind (evaluate_alike likens e) fun _ => .bind (.fit _) fun _ => .pure _

theorem replaceEach_alike {f : List Char → Play (List Char)} (each : ∀ s, Alike R (f s))
    (pieces : List Text.Piece) : Alike R (replaceEach f pieces) := by
  induction pieces with
  | nil => exact .pure _
  | cons piece rest ih =>
    cases piece with
    | plain c => exact .bind ih fun _ => .pure _
    | found s => exact .bind (each s) fun _ => .bind ih fun _ => .pure _

theorem expression_alike (likens : Likens frame.owner.stepsOf? R) (text : List Char) :
    Alike R (expression frame text) := by
  refine .bind (replaceEach_alike (fun literal => ?_) _) fun _ => parsed_alike _
  exact replaceEach_alike (fun _ => spliced_alike likens ..) _

theorem attempt_alike {α : Type} (likens : Likens job R) (text : List Char) {part : Play α}
    (alike : Alike R part) : Alike R (attempt frame text part) := by
  refine .tryCatch (.map _ alike) fun fault => ?_
  split
  · exact .bind (.log likens.toAgrees ..) fun _ => .pure _
  · exact .throw _

theorem decideExpr_alike (likens : Likens frame.owner.stepsOf? R) (text : List Char) (e : Expr) :
    Alike R (decideExpr frame text e) := by
  refine .get_bind (fun related => ?_) fun s => ?_
  · rw [missing?_eq likens related]
  · split
    · exact .bind (.log likens.toAgrees ..) fun _ => .pure _
    · refine .bind (attempt_alike likens text (evaluate_alike likens e)) fun value => ?_
      cases value with
      | none => exact .pure _
      | some operand => exact .fit _

theorem holds_alike (likens : Likens frame.owner.stepsOf? R) (condition : Value) :
    Alike R (holds frame condition) := by
  unfold holds
  split
  · exact .pure _
  · exact .pure _
  · refine .bind (.fit _) fun text => ?_
    split
    · exact .pure _
    · refine .bind (attempt_alike likens _ (expression_alike likens _)) fun found => ?_
      cases found with
      | none => exact .pure _
      | some e => exact decideExpr_alike likens ..

end Condition
end Rehearsal
