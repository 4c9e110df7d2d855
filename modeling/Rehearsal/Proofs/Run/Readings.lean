import Rehearsal.Proofs.Run.Memory
import Rehearsal.Proofs.Variable.Known

/-! What is read as JSON is the text up to the first closing parenthesis, so a reading has no other
reading inside. Whatever a run has done before, a reading comes to what is made of the value of its
argument, and asks what that asks: `readings_follow_arguments`. -/

namespace Rehearsal

open Play Reference

variable {workflow : Mapping} {expression value : String} {s t : Session}
  {result : Except Fault String}

/-! ### The argument of a reading -/

/-- What is resolved for a reading of JSON around an expression. -/
def Reference.argument (expression : String) : String :=
  String.ofList (Text.trim (expression.toList.takeWhile (· ≠ ')')))

theorem Reference.ne_close {text : List Char} (unclosed : ')' ∉ text) :
    ∀ c ∈ text, decide (c ≠ ')') = true := by
  intro c member
  apply decide_eq_true
  rintro rfl
  exact unclosed member

theorem Reference.argument_eq_self (unclosed : ')' ∉ expression.toList)
    (trimmed : Text.trimmed expression = expression) : argument expression = expression := by
  have whole : expression.toList.takeWhile (· ≠ ')') = expression.toList :=
    List.takeWhile_eq_self_iff.mpr (ne_close unclosed)
  rw [argument, whole]
  exact trimmed

theorem Reference.unclosed_argument (expression : String) :
    ')' ∉ (argument expression).toList := by
  rw [argument, String.toList_ofList]
  intro member
  obtain ⟨before, after, own, -⟩ := Text.exists_trim (expression.toList.takeWhile (· ≠ ')'))
  have inside : ')' ∈ expression.toList.takeWhile (· ≠ ')') := by
    rw [own]
    exact List.mem_append_left after (List.mem_append_right before member)
  simpa using List.mem_takeWhile_imp inside

theorem Reference.jsonAtStart?_of_unclosed {text : List Char} (unclosed : ')' ∉ text) :
    jsonAtStart? text = none := by
  cases found : jsonAtStart? text with
  | none => rfl
  | some inner =>
    simp only [jsonAtStart?, Option.bind_eq_bind, Option.bind_eq_some_iff] at found
    obtain ⟨rest, start, found⟩ := found
    have open' : ')' ∉ rest := by
      intro member
      apply unclosed
      rw [Text.after?_eq_some start]
      exact List.mem_append_right _ member
    have ended : rest.dropWhile (· ≠ ')') = [] :=
      List.dropWhile_eq_nil_iff.mpr (ne_close open')
    rw [ended] at found
    simp at found

theorem Reference.jsonWithin?_of_unclosed {text : List Char} (unclosed : ')' ∉ text) :
    jsonWithin? text = none := by
  induction text with
  | nil => rfl
  | cons c text ih =>
    rw [jsonWithin?, jsonAtStart?_of_unclosed unclosed]
    exact ih fun member => unclosed (.tail c member)

theorem Source.of_ne_json (unclosed : ')' ∉ expression.toList) (inner : List Char) :
    of expression ≠ .json inner := by
  intro own
  rw [of] at own
  split at own
  · next source found => exact ofStart?_ne_json expression inner (own ▸ found)
  · rw [jsonWithin?_of_unclosed unclosed] at own
    dsimp only at own
    split at own <;> cases own

/-! ### Kept readings -/

/-- That each reading of JSON that a session has kept is what is made of the value that its argument
has kept. -/
def Session.Consistent (s : Session) : Prop :=
  ∀ expression inner value, Source.of expression = .json inner →
    s.kept? expression = some value →
    ∃ text, s.kept? (String.ofList inner) = some text ∧ value = compactJson text

theorem Session.Consistent.congr (consistent : s.Consistent)
    (same : t.context.resolved = s.context.resolved) : t.Consistent := by
  intro expression inner value own kept
  rw [Session.kept?, same] at kept
  rw [Session.kept?, same]
  exact consistent expression inner value own kept

/-- An expression keeps no value before it is found, as only shorter ones are resolved for it. -/
theorem fresh_of_found (fresh : s.kept? expression = none)
    (given : (found workflow expression).perform s = (result, t)) : t.kept? expression = none := by
  rcases cases_of_found given with ⟨inner, first, u, own, resolved, same⟩ | ⟨-, same⟩
  · rw [Session.kept?, same]
    cases kept : Table.find? expression u.context.resolved with
    | none => rfl
    | some value =>
      rcases (learned_of_resolve resolved).only expression value kept with before | ⟨member, -⟩
      · rw [fresh] at before
        cases before
      · have shorter := Source.length_lt_of_json own
        have within := length_of_mem_chain member
        rw [String.length_ofList] at within
        omega
  · rw [Session.kept?, same]
    exact fresh

theorem kept_of_found {inner : List Char} (own : Source.of expression = .json inner)
    (given : (found workflow expression).perform s = (.ok value, t)) :
    ∃ text, t.kept? (String.ofList inner) = some text ∧ value = compactJson text := by
  rw [found, own] at given
  obtain ⟨text, u, resolved, read⟩ := perform_bind_eq_ok given
  obtain ⟨v, normalized, noted⟩ := perform_normalizeJson_compact (String.ofList inner) text u
  cases normalized.symm.trans read
  refine ⟨text, ?_, rfl⟩
  rw [Session.kept?, noted.context]
  exact kept_of_resolve resolved

theorem Session.Consistent.resolve {expression : String} {result : Except Fault String}
    {t : Session} (consistent : s.Consistent)
    (performed : (Rehearsal.resolve workflow expression).perform s = (result, t)) :
    t.Consistent := by
  have during {r : Except Fault String} {u : Session}
      (given : (found workflow expression).perform s = (r, u)) : u.Consistent := by
    rcases cases_of_found given with ⟨inner, first, v, own, resolved, same⟩ | ⟨-, same⟩
    · have shorter := Source.length_lt_of_json own
      exact (consistent.resolve resolved).congr same
    · exact consistent.congr same
  cases resolution_of_perform performed with
  | kept kept => exact consistent
  | failed fresh failed => exact during failed
  | @fresh value u fresh given =>
    intro other inner own source kept
    rw [Session.kept?_remember] at kept
    have stays (shorter : String) (text : String) (had : u.kept? shorter = some text) :
        Session.kept? { u with context := u.context.remember expression value } shorter =
          some text := by
      rw [Session.kept?_remember, if_neg]
      · exact had
      · rintro rfl
        rw [fresh_of_found fresh given] at had
        cases had
    split at kept
    · next same =>
      subst same
      cases kept
      obtain ⟨text, inside, read⟩ := kept_of_found source given
      exact ⟨text, stays _ _ inside, read⟩
    · obtain ⟨text, inside, read⟩ := during given other inner own source kept
      exact ⟨text, stays _ _ inside, read⟩
termination_by expression.length
decreasing_by simpa using shorter

theorem Act.Of.consistent {Kind : Deed → Prop} {Allowed : String → Prop} {a : Act}
    (own : a.Of Kind Allowed) (consistent : s.Consistent) : (a.after s).Consistent := by
  cases a with
  | deed d => exact consistent.congr (own.2.after_resolved s)
  | resolve workflow expression => exact consistent.resolve rfl

theorem Act.all_consistent {Kind : Deed → Prop} {Allowed : String → Prop} {acts : List Act}
    (own : ∀ a ∈ acts, a.Of Kind Allowed) (consistent : s.Consistent) :
    (all acts s).Consistent := by
  induction acts generalizing s with
  | nil => exact consistent
  | cons a acts ih =>
    obtain ⟨first, others⟩ := List.forall_mem_cons.mp own
    exact ih others (first.consistent consistent)

theorem Run.Operation.all_consistent (operations : List Operation) (consistent : s.Consistent) :
    (all operations s).Consistent := by
  obtain ⟨acts, made⟩ := exists_acts operations s
  rw [made.all]
  exact Act.all_consistent made.own consistent

/-! ### Resolving a reading -/

theorem compactJson_cases (text : String) :
    (∃ v, Json.parse text = .ok v ∧ Json.text .compact v = .ok (compactJson text)) ∨
      (∃ refusal, Json.parse text = .error refusal) ∧ compactJson text = text := by
  rw [compactJson]
  cases parsed : Json.parse text with
  | error refusal => exact .inr ⟨⟨refusal, rfl⟩, rfl⟩
  | ok v =>
    obtain ⟨written, told⟩ := Json.exists_text_of_within (Json.parse_within parsed) .compact
    refine .inl ⟨v, rfl, ?_⟩
    dsimp only
    rw [told]
    rfl

theorem Session.Consistent.unread {r : String} (consistent : s.Consistent)
    (reference : Expression.IsReference r) (fresh : s.kept? r = none) :
    s.kept? (decoded r) = none := by
  refine Option.eq_none_iff_forall_ne_some.mpr fun told kept => ?_
  obtain ⟨text, inside, -⟩ := consistent _ _ told (source_decoded reference) kept
  rw [String.ofList_toList, fresh] at inside
  cases inside

theorem perform_resolve_of_argument (consistent : s.Consistent) {inner : List Char}
    (own : Source.of expression = .json inner)
    (resolved : (resolve workflow (String.ofList inner)).perform s = (.ok value, t)) :
    ∃ u, (resolve workflow expression).perform s = (.ok (compactJson value), u) ∧
      u.questions = t.questions ∧ t.Recalled u := by
  cases kept : s.kept? expression with
  | some told =>
    obtain ⟨text, inside, rfl⟩ := consistent expression inner told own kept
    rw [perform_resolve_of_kept inside] at resolved
    cases resolved
    exact ⟨_, perform_resolve_of_kept kept, rfl, .refl _⟩
  | none =>
    obtain ⟨u, normalized, noted⟩ := perform_normalizeJson_compact (String.ofList inner) value t
    have given : (found workflow expression).perform s = (.ok (compactJson value), u) := by
      rw [found, own]
      dsimp only
      rw [perform_bind_ok resolved, normalized]
    refine ⟨_, perform_resolve_of_found kept given, noted.questions, ?_⟩
    intro other before had
    rw [Session.kept?_remember, if_neg]
    · rw [Session.kept?, noted.context]
      exact had
    · rintro rfl
      have fresh := fresh_of_found kept given
      rw [Session.kept?, noted.context] at fresh
      rw [Session.kept?, fresh] at had
      cases had

theorem perform_resolve_of_failed (consistent : s.Consistent) {inner : List Char} {fault : Fault}
    (own : Source.of expression = .json inner)
    (failed : (resolve workflow (String.ofList inner)).perform s = (.error fault, t)) :
    (resolve workflow expression).perform s = (.error fault, t) := by
  cases kept : s.kept? expression with
  | some told =>
    obtain ⟨text, inside, -⟩ := consistent expression inner told own kept
    rw [perform_resolve_of_kept inside] at failed
    cases failed
  | none =>
    have given : (found workflow expression).perform s = (.error fault, t) := by
      rw [found, own]
      dsimp only
      rw [perform_bind, failed]
    rw [perform_resolve_of_fresh kept, perform_bind, given]

/-- Whatever operations a run has made, a reading of JSON resolves its argument, which is no reading
itself: it asks what the argument asks, ends with its fault, and gives its value as compact JSON if
that is JSON, and else unchanged. The argument is the expression that is read, unless that has a
closing parenthesis or blanks at its ends. -/
theorem readings_follow_arguments (operations : List Run.Operation) (start : Session)
    (consistent : start.Consistent) (expression : String)
    (nonempty : expression.toList.takeWhile (· ≠ ')') ≠ []) :
    let s := Run.Operation.all operations start
    (∀ inner, Source.of (argument expression) ≠ .json inner) ∧
    (')' ∉ expression.toList → Text.trimmed expression = expression →
      argument expression = expression) ∧
    ∀ workflow, match (resolve workflow (argument expression)).perform s with
      | (.error fault, t) => (resolve workflow (decoded expression)).perform s = (.error fault, t)
      | (.ok value, t) => ∃ result u,
        (resolve workflow (decoded expression)).perform s = (.ok result, u) ∧
        u.questions = t.questions ∧ t.Recalled u ∧
        ((∃ v, Json.parse value = .ok v ∧ Json.text .compact v = .ok result) ∨
          (∃ refusal, Json.parse value = .error refusal) ∧ result = value) := by
  intro s
  have own := Source.of_decoded nonempty
  have steady : s.Consistent := Run.Operation.all_consistent operations consistent
  refine ⟨Source.of_ne_json (unclosed_argument expression), argument_eq_self, ?_⟩
  intro workflow
  split
  · next fault t failed => exact perform_resolve_of_failed steady own failed
  · next value t resolved =>
    obtain ⟨u, read, questions, recalled⟩ := perform_resolve_of_argument steady own resolved
    exact ⟨_, u, read, questions, recalled, compactJson_cases value⟩

def flagsWorkflow : Mapping := [(.str "env", .map [(.str "M", .str "[ true ]")])]

/-- A variable that was read before and is read again. -/
theorem readings_follow_arguments_of_variable :
    let s := Run.Operation.all [.resolve flagsWorkflow (decoded "env.M")] {}
    argument "env.M" = "env.M" ∧ ∃ u,
      (resolve flagsWorkflow (decoded "env.M")).perform s = (.ok "[true]", u) ∧
        u.questions = [] := by
  intro s
  obtain ⟨-, same, reads⟩ := readings_follow_arguments
    [.resolve flagsWorkflow (decoded "env.M")] {} (fun _ _ _ _ kept => nomatch kept) "env.M"
    (by decide)
  have whole : argument "env.M" = "env.M" := same (by decide) (by decide)
  have resolved : (resolve flagsWorkflow (argument "env.M")).perform s =
      (.ok "[ true ]", ((resolve flagsWorkflow (argument "env.M")).perform s).2) :=
    perform_eq_of_toOption (by decide +kernel)
  have questions : ((resolve flagsWorkflow (argument "env.M")).perform s).2.questions = [] := by
    decide +kernel
  have parsed : Json.parse "[ true ]" = .ok (.list [.bool true]) := by
    rw [Json.parse, show "[ true ]".toList = ['[', ' ', 't', 'r', 'u', 'e', ' ', ']'] by decide]
    rfl
  have compact : Json.text .compact (.list [.bool true]) = .ok "[true]" := by decide +kernel
  have read := reads flagsWorkflow
  rw [resolved] at read
  obtain ⟨result, u, decoded, asked, -, ⟨v, known, written⟩ | ⟨⟨refusal, refused⟩, -⟩⟩ := read
  · cases parsed.symm.trans known
    cases compact.symm.trans written
    exact ⟨whole, u, decoded, asked.trans questions⟩
  · cases parsed.symm.trans refused

/-- A reading in a reading asks for a text that ends in the middle. -/
theorem readings_cut_arguments :
    ((resolve flagsWorkflow (decoded "env.M")).perform {}).1.toOption = some "[true]" ∧
      ((resolve flagsWorkflow (decoded "env.M")).perform {}).2.questions = [] ∧
      ((resolve flagsWorkflow (decoded (decoded "env.M"))).perform {}).1.toOption =
        some "value" ∧
      ((resolve flagsWorkflow (decoded (decoded "env.M"))).perform {}).2.questions =
        [⟨"Enter value for 'fromJSON(env.M'", "value", false⟩] := by
  decide +kernel

end Rehearsal
