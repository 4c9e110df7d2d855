import Rehearsal.Proofs.Expression.Dotted
import Rehearsal.Proofs.Variable.JobOutput

/-! An expression that is read as JSON comes to the value of the expression inside it. A reference
comes to the compact JSON of its value, and nothing is asked if nothing is asked for the value:
`perform_resolve_decoded`. -/

namespace Rehearsal

open Play Reference

/-! ### The expression inside -/

/-- The expression that reads another one as JSON. -/
def Reference.decoded (expression : String) : String := "fromJSON(" ++ expression ++ ")"

theorem Reference.toList_decoded (expression : String) : (decoded expression).toList =
    'f' :: ("romJSON(".toList ++ (expression.toList ++ [')'])) := by
  simp [decoded]

namespace Source

theorem find?_menus {expression : String} {c : Char} (first : expression.toList.head? = some c)
    (other : c ≠ 'g') : menus.find? (·.1 == expression) = none := by
  refine List.find?_eq_none.mpr fun entry member same => ?_
  have known : ∀ entry ∈ menus, entry.1.toList.head? = some 'g' := by decide
  have start := known entry member
  rw [eq_of_beq same, first] at start
  exact other (Option.some.inj start)

theorem of_decoded {expression : String}
    (nonempty : expression.toList.takeWhile (· ≠ ')') ≠ []) :
    of (decoded expression) = .json (Text.trim (expression.toList.takeWhile (· ≠ ')'))) := by
  have head : (decoded expression).toList.head? = some 'f' := by
    rw [toList_decoded]
    rfl
  have menus := find?_menus head (by decide)
  have start : ofStart? (decoded expression) = none := by
    simp [ofStart?, menus, suggestions, Text.startsWith, Text.rest?, toList_decoded, Text.after?]
  have body : (expression.toList ++ [')']).takeWhile (· ≠ ')') =
      expression.toList.takeWhile (· ≠ ')') := by
    rw [List.takeWhile_append]
    split
    · next whole =>
      rw [(List.takeWhile_prefix _).eq_of_length whole]
      simp
    · rfl
  have within : jsonWithin? (decoded expression).toList =
      some (expression.toList.takeWhile (· ≠ ')')) := by
    have atStart : jsonAtStart? (decoded expression).toList =
        some (expression.toList.takeWhile (· ≠ ')')) := by
      rw [toList_decoded, ← List.cons_append, jsonAtStart?]
      show (Text.after? "fromJSON(".toList ("fromJSON(".toList ++ _)).bind _ = _
      rw [Text.after?_append, Option.bind_some, body, if_neg]
      simpa using nonempty
    rw [toList_decoded] at atStart ⊢
    rw [jsonWithin?, atStart]
    rfl
  rw [of, start, within]

end Source

namespace Reference

variable {job name r : String}

theorem isReference_outputs {root : String} {c : Char} {more : List Char}
    (begins : root.toList = c :: more) (start : Expression.isNameStart c = true)
    (chars : ∀ d ∈ more, Expression.isNameChar d = true) (owner : IsName job)
    (dotted : IsDotted name) :
    Expression.IsReference (root ++ "." ++ job ++ ".outputs." ++ name) := by
  have last := dotted.isPath_dot .nil
  have path := owner.isPath_dot ((show IsName "outputs" by decide).isPath_dot last)
  refine ⟨c, more, job.toList ++ (".outputs.".toList ++ name.toList), ?_, start, chars,
    by simpa using path⟩
  simp [begins]

theorem IsName.isReference_needed (owner : IsName job) (named : IsName name) :
    Expression.IsReference (needed job name) := by
  have begins : "needs".toList = ['n', 'e', 'e', 'd', 's'] := by decide
  have chars : ∀ d ∈ ['e', 'e', 'd', 's'], Expression.isNameChar d = true :=
    List.all_eq_true.mp (by decide)
  have own := isReference_outputs begins (by decide) chars owner (.name named)
  have root : "needs" ++ "." = "needs." := by decide
  rwa [root] at own

theorem IsName.isReference_ofStep (owner : IsName job) (dotted : IsDotted name) :
    Expression.IsReference (ofStep job name) :=
  isReference_outputs (show "steps".toList = 's' :: "teps".toList from rfl) (by decide)
    (List.all_eq_true.mp (by decide)) owner dotted

theorem source_decoded (reference : Expression.IsReference r) :
    Source.of (decoded r) = .json r.toList := by
  have whole : r.toList.takeWhile (· ≠ ')') = r.toList := by
    refine List.takeWhile_eq_self_iff.mpr fun c member => decide_eq_true ?_
    rintro rfl
    exact absurd (reference.isPath.isPartChar_or member) (by decide)
  rw [Source.of_decoded (by rw [whole]; exact reference.nonempty), whole,
    reference.isPath.trim_eq]

theorem isCanonical_decoded (reference : Expression.IsReference r) :
    Expression.Placeholder.IsCanonical (decoded r) where
  nonempty := by simp [toList_decoded]
  unclosed := by
    have other : '\x7d' ∉ r.toList := fun member =>
      absurd (reference.isPath.isPartChar_or member) (by decide)
    simp [toList_decoded, other]
  trimmed := by
    refine Text.trim_eq_self ?_ ?_
    · rw [toList_decoded]
      rintro c ⟨⟩
      decide
    · rw [toList_decoded, ← List.append_assoc, ← List.cons_append, List.getLast?_concat]
      rintro c ⟨⟩
      decide

end Reference

/-! ### Its value -/

theorem substitute_decoded (scope : Scope) (expression : String) :
    substitute scope (decoded expression) = resolve scope.workflow (decoded expression) := by
  have unbound : scope.binding? (decoded expression) = none := by
    simp [Scope.binding?, Text.rest?, toList_decoded, Text.after?]
  have other : Text.startsWith (decoded expression) "steps." = false := by
    simp [Text.startsWith, toList_decoded, Text.after?]
  rw [substitute, unbound]
  dsimp only
  rw [other, Bool.false_and, if_neg Bool.false_ne_true]

variable {workflow : Mapping} {r job name text : String} {s : Session}

theorem kept_of_resolve {expression value : String} {t : Session}
    (performed : (resolve workflow expression).perform s = (.ok value, t)) :
    t.kept? expression = some value := by
  cases resolution_of_perform performed with
  | kept kept => exact kept
  | fresh _ _ => rw [Session.kept?_remember, if_pos rfl]

theorem perform_resolve_of_found {expression value : String} {t : Session}
    (fresh : s.kept? expression = none)
    (given : (found workflow expression).perform s = (.ok value, t)) :
    (resolve workflow expression).perform s =
      (.ok value, { t with context := t.context.remember expression value }) := by
  rw [perform_resolve_of_fresh fresh, perform_bind_ok given]
  rfl

theorem perform_found_of_job? (path : Expression.IsPath r.toList)
    (read : job? r = some (job, name))
    (recorded : s.context.jobOutput? (.str job) name = some text) (workflow : Mapping) :
    ∃ t, (found workflow r).perform s = (.ok text, t) ∧ s.Noted t := by
  obtain ⟨t, told, noted⟩ := Session.Noted.log .info
    ("Using job output: " ++ job ++ "." ++ name ++ " = \"" ++ text ++ "\"") s
  refine ⟨t, ?_, noted⟩
  rw [found, source_of_job? path read]
  dsimp only
  rw [Resolve.fromSource, perform_get_bind, recorded]
  dsimp only
  rw [info, perform_bind_ok told]
  rfl

theorem perform_normalizeJson {compact : String} {v : Value} (parsed : Json.parse text = .ok v)
    (written : Json.text .compact v = .ok compact) (inner : String) (s : Session) :
    ∃ t, (Resolve.normalizeJson inner text).perform s = (.ok compact, t) ∧ s.Noted t := by
  obtain ⟨t, told, noted⟩ := Session.Noted.log .info
    ("Resolved fromJSON(" ++ inner ++ ") = " ++ compact) s
  refine ⟨t, ?_, noted⟩
  have fits : (fit (Json.text .compact v) : Play String) = pure compact := by rw [written]; rfl
  rw [Resolve.normalizeJson, parsed]
  dsimp only
  rw [fits, pure_bind, info, perform_bind_ok told]
  rfl

/-- A reference that is read as JSON comes to the compact JSON of its value, and nothing is asked,
if nothing is asked for the value. Neither the reference nor its reading may have been kept
already. -/
theorem perform_resolve_decoded (reference : Expression.IsReference r)
    (given : ∃ u, (found workflow r).perform s = (.ok text, u) ∧ s.Noted u) {v : Value}
    (parsed : Json.parse text = .ok v) {compact : String}
    (written : Json.text .compact v = .ok compact) (fresh : s.kept? r = none)
    (unread : s.kept? (decoded r) = none) :
    ∃ t, (resolve workflow (decoded r)).perform s = (.ok compact, t) ∧
      t.questions = s.questions := by
  obtain ⟨u, given, first⟩ := given
  have inside := perform_resolve_of_found fresh given
  obtain ⟨w, normalized, second⟩ := perform_normalizeJson parsed written r
    { u with context := u.context.remember r text }
  have read : (found workflow (decoded r)).perform s = (.ok compact, w) := by
    rw [found, source_decoded reference]
    dsimp only
    rw [String.ofList_toList, perform_bind_ok inside, normalized]
  exact ⟨_, perform_resolve_of_found unread read, second.questions.trans first.questions⟩

end Rehearsal
