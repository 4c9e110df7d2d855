import Rehearsal.Proofs.Condition.Checked
import Rehearsal.Proofs.Condition.Spliced
import Rehearsal.Proofs.Run.Current
import Rehearsal.Proofs.Variable.Asked
import Rehearsal.Proofs.Variable.Decoded
import Rehearsal.Proofs.Variable.Known

/-! Both read the text of a reference as JSON, a condition into its value and a command into its
compact text. For outputs of needed jobs and variables of the workflow that is the same value, and
neither asks for anything: `json_is_read_alike`. The text differs from the one of the value if that
is a string, null or no finite number. Outputs of steps and bindings of the matrix are known to
conditions only, and commands ask for them (`json_is_read_differently`). -/

namespace Rehearsal

open Play Reference Expression

/-! ### Conditions that read JSON

A condition that reads a reference as JSON comes to what is made of the value of the reference:
`Condition.perform_evaluate_decoded`.
-/

section

variable {r job name text : String}

namespace Expression

def decodedTokens (r : String) : List Token :=
  [⟨.name, "fromJSON", 0⟩, ⟨.punctuation, "(", 8⟩, ⟨.name, r, 9⟩,
    ⟨.punctuation, ")", 9 + r.length⟩]

namespace IsReference

variable (reference : IsReference r)
include reference

theorem tokenize_decoded : tokenize (decoded r) = .ok (decodedTokens r) := by
  have text : (decoded r).toList =
      'f' :: "romJSON".toList ++ ('(' :: [] ++ (r.toList ++ (')' :: [] ++ []))) := by
    rw [toList_decoded]
    simp
  have closing : Lexed (9 + r.length) (')' :: [] ++ []) [⟨.punctuation, ")", 9 + r.length⟩] :=
    .token (by decide) rfl (.nil _)
  have path : Lexed 9 (r.toList ++ (')' :: [] ++ [])) (decodedTokens r).tail.tail :=
    reference.lexed (by simp; decide) closing
  have opening : Lexed 8 ('(' :: [] ++ (r.toList ++ (')' :: [] ++ []))) (decodedTokens r).tail :=
    .token (by decide) rfl path
  refine tokenize_iff.mpr (text ▸ ?_)
  exact .token (by decide) rfl opening

theorem parse_decoded :
    Expression.parse (decoded r) = .ok (.call "fromJSON" [.reference r]) := by
  let argument : Derivation .primary :=
    .reference ⟨.name, r, 9⟩ rfl reference.keyword?_eq_none
  let call : Derivation .primary := .call ⟨.name, "fromJSON", 0⟩ rfl rfl (by decide)
    ⟨⟨.punctuation, "(", 8⟩, rfl, rfl⟩ (.argument argument.whole)
    ⟨⟨.punctuation, ")", 9 + r.length⟩, rfl, rfl⟩
  exact parse_of_primary (d := call) reference.tokenize_decoded

end IsReference
end Expression

namespace Condition

variable {frame : Frame} {s : Session}

theorem perform_expression_decoded (reference : IsReference r) (frame : Frame) (s : Session) :
    (expression frame (decoded r).toList).perform s =
      (.ok (.call "fromJSON" [.reference r]), s) := by
  have free : Placeholder.IsFree (decoded r).toList := by
    intro opens
    have dollar : '$' ∈ (decoded r).toList := opens.subset (by decide)
    rw [toList_decoded] at dollar
    have member : '$' ∈ r.toList := by simpa using dollar
    exact absurd (reference.isPath.isPartChar_or member) (by decide)
  rw [expression, perform_bind_ok (perform_splice_of_isFree free s),
    Placeholder.unwrap_of_isFree free, perform_parsed, String.ofList_toList,
    reference.parse_decoded, Except.mapError]

theorem missing?_decoded {context : Context} {steps : Option Scalar}
    (known : missingAt? context steps r = none) :
    missing? context steps (.call "fromJSON" [.reference r]) = none := by
  show [r].findSome? _ = none
  rw [List.findSome?_cons, known]
  rfl

theorem missingAt?_eq_none_of_job? {context : Context} (read : job? r = some (job, name))
    (recorded : context.jobOutput? (.str job) name = some text) (steps : Option Scalar) :
    missingAt? context steps r = none := by
  simp [missingAt?, read, recorded]

theorem fromJson_of_parse {v : Value} (parsed : Json.parse text = .ok v) :
    Functions.fromJson [.fresh (.str text)] = .ok (.fresh v) := by
  rw [Functions.fromJson]
  simp only [Operand.fresh, parsed]

theorem perform_evaluate_decoded {t : Session} {operand result : Operand}
    (looked : (lookup frame r).perform s = (.ok operand, t))
    (read : Functions.fromJson [operand] = .ok result) :
    (evaluate frame (.call "fromJSON" [.reference r])).perform s = (.ok result, t) := by
  let operands : Play (List Operand) :=
    Expr.evaluateAll Functions.builtin (lookup frame) [.reference r]
  have evaluated : operands.perform s = (.ok [operand], t) := by
    show Play.perform (Expr.evaluateAll _ _ [.reference r]) s = _
    rw [Expr.evaluateAll, Expr.evaluate]
    exact (perform_bind_ok looked).trans rfl
  have whole : evaluate frame (.call "fromJSON" [.reference r]) =
      operands >>= fun operands => Evaluation.adopt (Functions.fromJson operands) := by
    rw [evaluate, Expr.evaluate]
    rfl
  rw [whole, perform_bind_ok evaluated, read]
  rfl

end Condition

end

/-! ### Values and their JSON -/

namespace Value

/-- Whether the text of a value is its JSON: not so for null, strings and numbers that are not
finite. -/
def isWrittenAsJson : Value → Bool
  | null => false
  | str _ => false
  | float (.finite _ _) => true
  | float _ => false
  | _ => true

theorem length_le_flatMap_escape (s : List Char) : s.length ≤ (s.flatMap Json.escape).length := by
  have each (c : Char) : 1 ≤ (Json.escape c).length := by
    have nonempty : Json.escape c ≠ [] := by
      unfold Json.escape
      extract_lets
      split_ifs <;> exact List.cons_ne_nil _ _
    exact List.length_pos_of_ne_nil nonempty
  induction s with
  | nil => exact Nat.le_refl _
  | cons c s ih =>
    have own := each c
    simp only [List.flatMap_cons, List.length_append, List.length_cons]
    omega

theorem expressionText_int (i : Int) : (int i).expressionText = Json.text .compact (int i) := by
  have bare : Json.text .compact (int i) = (Json.bare (.int i)).map String.ofList := by
    rw [Json.text, opened, Json.render, Json.scalar]
    · nofun
    · nofun
  rw [bare]
  unfold expressionText Json.bare
  rcases Option.eq_none_or_eq_some (Numeral.text? i) with long | ⟨s, written⟩
  · simp only [long]
    rfl
  · simp only [written, Except.map, String.ofList_toList]

theorem expressionText_eq_json {v : Value} (own : v.isWrittenAsJson = true) :
    v.expressionText = Json.text .compact v := by
  unfold isWrittenAsJson at own
  split at own
  · cases own
  · cases own
  · exact congrArg Except.ok String.ofList_toList.symm
  · cases own
  · next null string _ number =>
    cases v with
    | scalar s =>
      cases s with
      | null => exact absurd rfl null
      | str s => exact absurd rfl (string s)
      | float d => exact absurd rfl (number d)
      | bool b => cases b <;> rfl
      | int i => exact expressionText_int i
      | date | moment | bytes => rfl
    | _ => rfl

theorem expressionText_ne_json {v : Value} (own : v.isWrittenAsJson = false) :
    v.expressionText ≠ Json.text .compact v := by
  unfold isWrittenAsJson at own
  split at own
  · decide
  · next s =>
    intro same
    have text : s.toList = '"' :: s.toList.flatMap Json.escape ++ ['"'] := by
      have equal : s = String.ofList (Json.string s) := Except.ok.inj same
      exact (congrArg String.toList equal).trans String.toList_ofList
    have longer := congrArg List.length text
    have least := length_le_flatMap_escape s.toList
    simp only [List.length_cons, List.length_append] at longer
    omega
  · cases own
  · next d special =>
    cases d with
    | nan => decide
    | infinite negative => cases negative <;> decide
    | finite negative units => exact absurd rfl (special negative units)
  · cases own

theorem expressionText_eq_json_iff {v : Value} :
    v.expressionText = Json.text .compact v ↔ v.isWrittenAsJson = true := by
  refine ⟨fun same => ?_, expressionText_eq_json⟩
  cases own : v.isWrittenAsJson with
  | true => rfl
  | false => exact absurd same (expressionText_ne_json own)

/-- What reading as JSON makes of a value whose text is JSON for another one: a value that is no
string stays as it is. -/
def decoded (value read : Value) : Value :=
  match value with
  | str _ => read
  | other => other

end Value

/-! ### References that are known -/

/-- That a reference has a text in the whole run without a question: an output of a needed job that
is on record, or a variable of the workflow. -/
inductive Told (workflow : Mapping) (c : Context) (r : String) : String → Prop
  | output {job name text : String} (read : job? r = some (job, name))
      (recorded : c.jobOutput? (.str job) name = some text) : Told workflow c r text
  | environment {name text : String} {value : Value} (own : Text.rest? "env." r = some name)
      (given : environmentValue? workflow name = .ok (some value))
      (written : value.expressionText = .ok text) : Told workflow c r text

/-- That a reference has a value in an instance of a job without a question. Besides what is known
in the whole run these are the outputs of steps on record and the bindings of the matrix. -/
inductive Condition.Tells (frame : Frame) (c : Context) (r : String) : Value → Prop
  | told {text : String} (told : Told frame.workflow c r text) : Tells frame c r (.str text)
  | step {job : Scalar} {id name text : String} (owner : frame.owner = .step job)
      (read : step? r = some (id, name)) (recorded : c.stepOutput? job id name = some text) :
      Tells frame c r (.str text)
  | binding {key : String} {value : Value} (own : Text.rest? "matrix." r = some key)
      (bound : Table.find? (.str key) frame.matrix = some value) : Tells frame c r value

variable {workflow : Mapping} {frame : Condition.Frame} {r text : String} {s : Session}
  {value v : Value}

theorem Source.of_rest? {name : String} (own : Text.rest? "env." r = some name) :
    of r = .environment name := by
  obtain ⟨rest, after, rfl⟩ := Option.map_eq_some_iff.mp own
  have whole : r.toList = 'e' :: ("nv.".toList ++ rest) := Text.after?_eq_some after
  have menus : menus.find? (·.1 == r) = none :=
    find?_menus (c := 'e') (by rw [whole]; rfl) (by decide)
  have start : ofStart? r = some (.environment (String.ofList rest)) := by
    simp [ofStart?, menus, Text.rest?, whole, Text.after?]
  rw [of, start]

theorem Reference.other_of_rest? {root key : String} (own : Text.rest? root r = some key)
    (begins : ∃ c more, root.toList = c :: more ∧ c ≠ 'n' ∧ c ≠ 's') :
    isJobResult r = false ∧ job? r = none ∧ step? r = none := by
  obtain ⟨rest, after, -⟩ := Option.map_eq_some_iff.mp own
  obtain ⟨c, more, text, needs, steps⟩ := begins
  have whole := Text.after?_eq_some after
  have absent {a : Char} (other : c ≠ a) (start : List Char) :
      Text.after? (a :: start) r.toList = none := by
    rw [whole, text, List.cons_append, Text.after?, if_neg other.symm]
  have none (root : String) {a : Char} {start : List Char} (same : root.toList = a :: start)
      (other : c ≠ a) : output? root r = none := by
    rw [output?, same, List.cons_append, absent other]
    rfl
  refine ⟨?_, none "needs" rfl needs, none "steps" rfl steps⟩
  rw [isJobResult, show Text.after? "needs.".toList r.toList = .none from absent needs _]
  rfl

theorem Reference.other_of_binding {key : String} (own : Text.rest? "matrix." r = some key) :
    isJobResult r = false ∧ job? r = none ∧ step? r = none :=
  other_of_rest? own ⟨'m', "atrix.".toList, rfl, by decide, by decide⟩

theorem Reference.other_of_environment {name : String} (own : Text.rest? "env." r = some name) :
    isJobResult r = false ∧ job? r = none ∧ step? r = none :=
  other_of_rest? own ⟨'e', "nv.".toList, rfl, by decide, by decide⟩

theorem Told.found (reference : IsReference r) (told : Told workflow s.context r text) :
    ∃ t, (found workflow r).perform s = (.ok text, t) ∧ s.Noted t := by
  cases told with
  | output read recorded => exact perform_found_of_job? reference.isPath read recorded workflow
  | @environment name _ value own given written =>
    have source := Source.of_rest? own
    have known : (Source.environment name).known? workflow s.context = some text := by
      rw [Source.known?, given]
      dsimp only
      rw [written]
      rfl
    obtain ⟨t, performed, noted⟩ := fromSource_of_known known r
    refine ⟨t, ?_, noted⟩
    rw [Rehearsal.found, source]
    exact performed

/-- A reference that commands know only as a whole expression: to an output of a step or to a
binding of the matrix, with no reference to an output of a needed job inside it. -/
structure Reference.IsLocal (r : String) : Prop where
  begins : (step? r).isSome = true ∨ (Text.rest? "matrix." r).isSome = true
  alone : jobWithin? r.toList = none

instance (r : String) : Decidable (IsLocal r) :=
  decidable_of_iff (((step? r).isSome = true ∨ (Text.rest? "matrix." r).isSome = true) ∧
    jobWithin? r.toList = none) ⟨fun ⟨begins, alone⟩ => ⟨begins, alone⟩,
      fun ⟨begins, alone⟩ => ⟨begins, alone⟩⟩

theorem Reference.IsLocal.exists_toList (own : IsLocal r) :
    ∃ rest, r.toList = 's' :: 't' :: rest ∨ r.toList = 'm' :: rest := by
  rcases own.begins with step | binding
  · obtain ⟨found, read⟩ := Option.isSome_iff_exists.mp step
    obtain ⟨rest, after, -⟩ := Option.bind_eq_some_iff.mp read
    exact ⟨_, .inl (Text.after?_eq_some after)⟩
  · obtain ⟨key, read⟩ := Option.isSome_iff_exists.mp binding
    obtain ⟨rest, after, -⟩ := Option.map_eq_some_iff.mp read
    exact ⟨_, .inr (Text.after?_eq_some after)⟩

theorem Source.of_isLocal (reference : IsReference r) (own : IsLocal r) : of r = .other := by
  have start : ofStart? r = none := by
    obtain ⟨rest, whole | whole⟩ := own.exists_toList
    all_goals
      have menus := find?_menus (by rw [whole]; rfl) (by decide)
      simp [ofStart?, menus, suggestions, Text.startsWith, Text.rest?, whole, Text.after?]
  rw [of, start, jsonWithin?_of_isPath reference.isPath, own.alone]

theorem Reference.IsLocal.questions_eq (reference : IsReference r) (own : IsLocal r)
    (fresh : s.kept? r = none) (unread : s.kept? (decoded r) = none) :
    ((resolve workflow (decoded r)).perform s).2.questions =
      s.questions ++ [⟨"Enter value for '" ++ r ++ "'", "value", false⟩] := by
  have source := Source.of_isLocal reference own
  have outer : Call.questions ⟨workflow, decoded r, s⟩ = [] :=
    Call.questions_of_unprompted (Call.prompt?_of_json (source_decoded reference))
  have prompts : Call.prompt? ⟨workflow, r, s⟩ =
      some (.entry ("Enter value for '" ++ r ++ "'") "value") := by
    rw [Call.prompt?_of_fresh fresh, source]
    rfl
  have inner : Call.along workflow r s = [⟨workflow, r, s⟩] := by
    have other (inside : List Char) : Source.of r ≠ .json inside := by
      rw [source]
      exact Source.noConfusion
    rw [Call.along, chain_of_other other]
    rfl
  have asked : Call.questions ⟨workflow, r, s⟩ =
      [⟨"Enter value for '" ++ r ++ "'", "value", false⟩] := by
    rw [Call.questions, prompts]
    exact Prompt.questions_entry ..
  rw [questions_of_resolve, Call.along_of_json unread (source_decoded reference),
    String.ofList_toList, inner]
  simp [outer, asked]

namespace Condition

theorem Tells.lookup (reference : IsReference r) (tells : Tells frame s.context r value)
    (fresh : s.kept? r = none) :
    ∃ operand t, (lookup frame r).perform s = (.ok operand, t) ∧ operand.value = value ∧
      t.questions = s.questions := by
  cases tells with
  | told told =>
    obtain ⟨t, given, noted⟩ := told.found reference
    cases told with
    | output read recorded =>
      refine ⟨_, s, perform_lookup_of_job? read s, ?_, rfl⟩
      rw [recorded]
      rfl
    | environment own _ _ =>
      obtain ⟨result, job, step⟩ := other_of_environment own
      have other : IsOther frame r := ⟨result, job, .inr step⟩
      have unbound : Text.rest? "matrix." r = none := by
        obtain ⟨rest, after, -⟩ := Option.map_eq_some_iff.mp own
        simp [Text.rest?, Text.after?_eq_some after, Text.after?]
      have dotted : r.toList.contains '.' = true := by
        obtain ⟨c, root, more, text, -⟩ := reference.parts
        simp [text]
      have looked := other.perform_lookup_of_unbound (by simp [unbound]) s
      rw [if_pos dotted, perform_bind_ok (perform_resolve_of_found fresh given)] at looked
      exact ⟨_, _, looked, rfl, noted.questions⟩
  | step owner read recorded =>
    refine ⟨_, s, perform_lookup_of_step? owner read s, ?_, rfl⟩
    rw [recorded]
    rfl
  | binding own bound =>
    obtain ⟨result, job, step⟩ := other_of_binding own
    have other : IsOther frame r := ⟨result, job, .inr step⟩
    exact ⟨_, s, other.perform_lookup_of_binding own bound s, rfl, rfl⟩

theorem Tells.missingAt? (tells : Tells frame s.context r value) :
    missingAt? s.context frame.owner.stepsOf? r = none := by
  cases tells with
  | told told =>
    cases told with
    | output read recorded => exact missingAt?_eq_none_of_job? read recorded _
    | environment own _ _ =>
      obtain ⟨-, job, step⟩ := other_of_environment own
      simp [Condition.missingAt?, job, step]
  | step owner read recorded =>
    simp [Condition.missingAt?, (other_of_step? read).2.1, read, owner, Owner.stepsOf?, recorded]
  | binding own bound =>
    obtain ⟨-, job, step⟩ := other_of_binding own
    simp [Condition.missingAt?, job, step]

/-- That a condition which reads a reference as JSON comes to a value without a question. -/
def ReadsJson (frame : Frame) (s : Session) (r : String) (value : Value) : Prop :=
  ∃ e operand t, (expression frame (decoded r).toList).perform s = (.ok e, s) ∧
    missing? s.context frame.owner.stepsOf? e = none ∧
    (evaluate frame e).perform s = (.ok operand, t) ∧ operand.value = value ∧
    t.questions = s.questions

theorem exists_fromJson {operand : Operand} (told : operand.value.expressionText = .ok text)
    (parsed : Json.parse text = .ok v) : ∃ result, Functions.fromJson [operand] = .ok result ∧
      result.value = operand.value.decoded v := by
  by_cases string : ∃ own, operand.value = .str own
  · obtain ⟨own, same⟩ := string
    rw [same] at told
    obtain rfl := Except.ok.inj told
    rw [Functions.fromJson, same]
    simp only [parsed]
    exact ⟨_, rfl, rfl⟩
  · rw [not_exists] at string
    refine ⟨operand, ?_, ?_⟩
    · rw [Functions.fromJson]
      split
      · next own same => exact absurd same (string own)
      · rfl
    · unfold Value.decoded
      split
      · next own same => exact absurd same (string own)
      · rfl

theorem Tells.readsJson (reference : IsReference r) (tells : Tells frame s.context r value)
    (told : value.expressionText = .ok text) (parsed : Json.parse text = .ok v)
    (fresh : s.kept? r = none) : ReadsJson frame s r (value.decoded v) := by
  obtain ⟨operand, t, looked, rfl, asked⟩ := tells.lookup reference fresh
  obtain ⟨result, read, same⟩ := exists_fromJson told parsed
  exact ⟨_, result, t, perform_expression_decoded reference frame s,
    missing?_decoded tells.missingAt?, perform_evaluate_decoded looked read, same, asked⟩

end Condition

/-- That commands of every job replace the reading of a reference as JSON by a text, and ask for
nothing. -/
structure CommandsReadJson (frame : Condition.Frame) (s : Session) (r text : String) : Prop where
  substituted : ∀ job, ∃ t, (substitute ⟨frame.workflow, job, frame.matrix⟩ (decoded r)).perform s =
    (.ok text, t) ∧ t.questions = s.questions
  filled : ∀ job title before after, Placeholder.IsFree before → Placeholder.IsFree after →
    ∃ t, (fill ⟨frame.workflow, job, frame.matrix⟩ title
        (String.ofList (before ++ (Placeholder.of (decoded r) ++ after)))).perform s =
      (.ok (String.ofList (before ++ text.toList ++ after)), t) ∧ t.questions = s.questions

theorem Told.commandsReadJson {frame : Condition.Frame} {compact : String}
    (reference : IsReference r) (told : Told frame.workflow s.context r text)
    (parsed : Json.parse text = .ok v) (written : Json.text .compact v = .ok compact)
    (fresh : s.kept? r = none) (unread : s.kept? (decoded r) = none) :
    CommandsReadJson frame s r compact := by
  obtain ⟨t, resolved, asked⟩ :=
    perform_resolve_decoded reference (told.found reference) parsed written fresh unread
  have given (job : Scalar) :
      (substitute ⟨frame.workflow, job, frame.matrix⟩ (decoded r)).perform s =
        (.ok compact, t) := by
    rw [substitute_decoded]
    exact resolved
  refine ⟨fun job => ⟨t, given job, asked⟩, fun job title before after free others => ?_⟩
  obtain ⟨u, filled, noted⟩ :=
    perform_fill_around (isCanonical_decoded reference) (given job) free others title
  exact ⟨u, filled, noted.questions.trans asked⟩

/-- Values that a needed job and a step give, and one of the matrix. -/
def flagsSession : Session where
  context := Context.recordStep (.str "test") "plan" [("flags", "[true]")]
    (Context.recordJob (.str "build") "flags" "[true, false]"
      (Context.recordJob (.str "build") "level" "\"high\"" {}))

def flagsFrame : Condition.Frame where
  workflow := []
  owner := .step (.str "test")
  matrix := [(.str "flags", .list [.bool true])]

theorem parse_flag : Json.parse "[true]" = .ok (.list [.bool true]) := by
  rw [Json.parse, show "[true]".toList = ['[', 't', 'r', 'u', 'e', ']'] by decide]
  rfl

theorem isReference_matrix_flags : IsReference "matrix.flags" where
  parts := ⟨'m', "atrix".toList, "flags".toList, rfl, by decide,
    List.all_eq_true.mp (by decide), by
      simpa using (show IsName "flags" by decide).isPath_dot .nil⟩

end Rehearsal
