import Rehearsal.Proofs.Json.Restored
import Rehearsal.Proofs.Matrix.Expansion
import Rehearsal.Proofs.Variable.Unasked

/-! A matrix in the form of a text is expanded as the matrix that the text comes to as JSON, unless
that is empty: `resolved_matrices_expand_alike`. An empty matrix that is written out is no matrix,
while one that an expression comes to has no combinations (`resolved_empty_matrix`). A matrix that
names what was just told is expanded in another way by itself (`resolved_matrix_names_itself`). -/

namespace Rehearsal.Matrix

open Play

variable {scope : Scope} {text written : String} {matrix : Value} {s t u : Session}

theorem perform_resolveJson (given : (fill scope "matrix" text).perform s = (.ok written, u))
    (read : Json.parse written = .ok matrix) :
    (resolveJson scope text).perform s = (.ok matrix, u) := by
  rw [resolveJson, perform_bind_ok given, read]
  rfl

theorem isPresent_of_fill (given : (fill scope "matrix" text).perform s = (.ok written, u))
    (read : Json.parse written = .ok matrix) : (Value.str text).isPresent = true := by
  by_cases blank : text = ""
  · -- A blank text is no JSON.
    subst blank
    cases given
    cases read
  · simpa [Value.isPresent] using blank

theorem perform_expand_of_text (given : (fill scope "matrix" text).perform s = (.ok written, u))
    (read : Json.parse written = .ok matrix) :
    (expand scope (.str text)).perform s = (expandStated scope matrix).perform u := by
  rw [expand_of_text (isPresent_of_fill given read),
    perform_bind_ok (perform_resolveJson given read)]

/-- That a value is a collection which JSON can state. -/
inductive IsCollection : Value → Prop
  | list (items : List Value) : IsCollection (.list items)
  | map (entries : Mapping) : IsCollection (.map entries)

namespace IsCollection

theorem stated (collection : IsCollection matrix) (text : String) : matrix ≠ .str text := by
  cases collection <;> nofun

theorem opened (collection : IsCollection matrix) : matrix.opened = matrix := by
  cases collection <;> rfl

theorem expandStated_of_empty (collection : IsCollection matrix) (empty : matrix.isPresent = false)
    (named : ∃ name, scope.job.plain = .ok name) (s : Session) :
    ((expandStated scope matrix).perform s).1 = .ok [] := by
  cases collection with
  | list items =>
    obtain rfl : items = [] := by simpa [Value.isPresent] using empty
    obtain ⟨t, logged, -⟩ : ∃ t, (logCombinations []).perform s = (.ok (), t) ∧ s.Noted t :=
      perform_logCombinations (List.forall_mem_nil _) s
    show ((do logCombinations []; return [] : Play (List Mapping)).perform s).1 = _
    rw [perform_bind_ok logged]
    rfl
  | map entries =>
    obtain rfl : entries = [] := by simpa [Value.isPresent] using empty
    have parts : Parts scope [] s [] [] [] s := .found rfl rfl .none
    obtain ⟨t, expanded, -⟩ := perform_expandMapping parts nofun named
    exact congrArg Prod.fst expanded

end IsCollection

/-- The expressions that expanding a matrix resolves. -/
def NamedIn (matrix : Value) (expression : String) : Prop :=
  ∃ entries, matrix = .map entries ∧ Names entries expression

theorem expandStated_alike (collection : IsCollection matrix)
    (same : s.SameKnown scope.workflow (NamedIn matrix) t) :
    ((expandStated scope matrix).perform t).1 = ((expandStated scope matrix).perform s).1 := by
  have tallies : Tallies scope (NamedIn matrix) _ := tallies_of_sameKnown scope
  refine ((tallies.expandStated fun entries opened expression names => ?_).outcome same).1
  rw [collection.opened] at opened
  exact ⟨entries, opened, names⟩

/-- **Matrices given by expressions.** A text that comes to the JSON of a collection is expanded as
the collection is after that, and as it is in each session with the same context and the answers
that are left, if no new value was told of the expressions in it. Without a question, this is the
session in which the text was resolved. It is otherwise for an empty collection, which is no matrix
when it is written out. -/
theorem resolved_matrices_expand_alike (collection : IsCollection matrix)
    (given : (fill scope "matrix" text).perform s = (.ok written, u))
    (read : Json.parse written = .ok matrix) :
    (matrix.isPresent = true →
      (expand scope (.str text)).perform s = (expand scope matrix).perform u ∧
      (∀ t, t.context = s.context → t.answers = u.answers →
        (∀ expression, NamedIn matrix expression →
          known? scope.workflow u.context expression = known? scope.workflow s.context expression) →
        ((expand scope matrix).perform t).1 = ((expand scope (.str text)).perform s).1) ∧
      (u.questions = s.questions →
        ((expand scope matrix).perform s).1 = ((expand scope (.str text)).perform s).1)) ∧
    (matrix.isPresent = false → (∃ name, scope.job.plain = .ok name) →
      ((expand scope matrix).perform s).1 = .ok [[]] ∧
      ((expand scope (.str text)).perform s).1 = .ok []) := by
  have resolved := perform_expand_of_text given read
  constructor
  · intro present
    have stated : expand scope matrix = expandStated scope matrix :=
      expand_of_stated present collection.stated
    have fills : Consults Deed.Inquires (fun _ => True) (fill scope "matrix" text) :=
      fill_consults scope "matrix" fun _ _ => trivial
    have outputs := fills.inquires.sameOutputs given
    rw [stated, resolved]
    refine ⟨rfl, fun t context answers known => ?_, fun unasked => ?_⟩
    · refine (expandStated_alike collection
        ⟨⟨?_, ?_⟩, answers.symm, fun expression named => ?_⟩).symm
      · rw [context, outputs.jobs]
      · rw [context, outputs.steps]
      · rw [context, known expression named]
    · -- Values may have been kept on the way, but those were known before.
      have same := sameKnown_of_fill given unasked
      exact (expandStated_alike collection
        ⟨same.toSameOutputs, same.answers, fun _ _ => same.known _ trivial⟩).symm
  · intro empty named
    rw [resolved]
    refine ⟨?_, collection.expandStated_of_empty empty named u⟩
    rw [expand, empty]
    rfl

/-! ### Matrices of the workflow's variables -/

def namedMatrix : Value := .map [(.str "os", .str "$\x7b\x7b env.OS \x7d\x7d")]

def namedText : String := "\x7b\"os\":\"$\x7b\x7b env.OS \x7d\x7d\"\x7d"

/-- A workflow with the variable and the matrix, and with empty ones. -/
def listing : Scope where
  workflow := [(.str "env", .map [(.str "OS", .str "[\"linux\", \"mac\"]"),
    (.str "NAMED", .str namedText), (.str "MAP", .str "\x7b\x7d"), (.str "LIST", .str "[]")])]
  job := .str "build"

theorem parse_namedText : Json.parse namedText = .ok namedMatrix := by
  have portable : namedMatrix.Portable :=
    .map (List.forall_mem_singleton.mpr ⟨"os", rfl, by decide +kernel⟩)
      (List.pairwise_singleton ..) (List.forall_mem_singleton.mpr (.str (by decide +kernel)))
  obtain ⟨text, told, read⟩ := portable.restored
  have own : Json.text .compact namedMatrix = .ok namedText := by decide +kernel
  have same : text = namedText := Except.ok.inj (told.symm.trans own)
  rw [← same, read]

/-- The variable that the matrix names has the same value after the text is resolved. -/
theorem resolved_matrices_expand_alike_listing :
    ((expand listing namedMatrix).perform {}).1 =
        ((expand listing (.str "$\x7b\x7b env.NAMED \x7d\x7d")).perform {}).1 ∧
      ((expand listing namedMatrix).perform {}).1.toOption.map List.length = some 2 := by
  have given : (fill listing "matrix" "$\x7b\x7b env.NAMED \x7d\x7d").perform {} =
      (.ok namedText, _) := perform_eq_of_toOption (by decide +kernel)
  have alike := (resolved_matrices_expand_alike (.map _) given parse_namedText).1 rfl
  exact ⟨alike.2.2 (by decide +kernel), by decide +kernel⟩

/-- An empty matrix that is written out has one instance without bindings; one that an expression
comes to has none. -/
theorem resolved_empty_matrix :
    ((fill listing "matrix" "$\x7b\x7b env.MAP \x7d\x7d").perform {}).1.toOption =
        some "\x7b\x7d" ∧
      Json.parse "\x7b\x7d" = .ok (.map []) ∧
      ((expand listing (.map [])).perform {}).1.toOption.map List.length = some 1 ∧
      ((expand listing (.str "$\x7b\x7b env.MAP \x7d\x7d")).perform {}).1.toOption.map
        List.length = some 0 ∧
      ((fill listing "matrix" "$\x7b\x7b env.LIST \x7d\x7d").perform {}).1.toOption =
        some "[]" ∧
      Json.parse "[]" = .ok (.list []) ∧
      ((expand listing (.list [])).perform {}).1.toOption.map List.length = some 1 ∧
      ((expand listing (.str "$\x7b\x7b env.LIST \x7d\x7d")).perform {}).1.toOption.map
        List.length = some 0 :=
  ⟨by decide +kernel, rfl, by decide +kernel, by decide +kernel, by decide +kernel, rfl,
    by decide +kernel, by decide +kernel⟩

/-- A session in which the user gives the matrix for the variable that it names, and then a list. -/
def telling : Session where
  answers := { texts := [namedText, "[\"linux\"]"] }

def texts (result : Except Fault (List Mapping)) : Option (List (List (Option String))) :=
  result.toOption.map fun instances => instances.map fun bindings =>
    bindings.map fun binding => binding.2.expressionText.toOption

/-- Where resolving the text tells a new value of a variable that the matrix names, the matrix
itself is expanded differently with the answers that are left. -/
theorem resolved_matrix_names_itself :
    let scope : Scope := { workflow := [], job := .str "build" }
    let given := (fill scope "matrix" "$\x7b\x7b env.OS \x7d\x7d").perform telling
    given.1.toOption = some namedText ∧ Json.parse namedText = .ok namedMatrix ∧
      texts ((expand scope (.str "$\x7b\x7b env.OS \x7d\x7d")).perform telling).1 =
        some [[some namedText]] ∧
      texts ((expand scope namedMatrix).perform { answers := given.2.answers }).1 =
        some [[some "linux"]] :=
  ⟨by decide +kernel, parse_namedText, by decide +kernel, by decide +kernel⟩

end Rehearsal.Matrix
