import Rehearsal.Proofs.Job.Seen
import Rehearsal.Proofs.Variable.Decoded
import Rehearsal.Step.Name

/-! Conditions, commands and outputs of jobs read a reference to an output of a step each in its own
way. They take the same step and the same name from it, whether the name has one part or more, so
all come to the value on record. A step whose id comes from its name can be referred to like this:
`readers_agree`. -/

namespace Rehearsal

open Play Expression Reference

/-! ### Texts of values -/

theorem Numeral.text?_nonempty {i : Int} {text : String} (written : text? i = some text) :
    text ≠ "" := by
  have digits := (isDigits_toDigits i.natAbs).nonempty
  unfold text? at written
  split at written
  · cases written
  · cases written
    split <;> simp [digits]

theorem Double.decimal_nonempty (l : Layout) (d : Decimal) : l.decimal d ≠ [] := by
  unfold Layout.decimal
  extract_lets
  split
  · simp
  · split <;> simp

theorem Double.text_nonempty (d : Double) : d.text .plain ≠ "" := by
  cases d with
  | nan => decide
  | infinite negative => cases negative <;> decide
  | finite negative units =>
    have size : (if units = 0 then ['0', '.', '0'] else Layout.decimal .plain (shortest units)) ≠
        [] := by
      split
      · exact List.cons_ne_nil _ _
      · exact decimal_nonempty _ _
    rw [text]
    cases negative with
    | false => simpa using size
    | true => simp

theorem Scalar.quoted_nonempty {v : Scalar} {text : String} (written : v.quoted = .ok text) :
    text ≠ "" := by
  unfold quoted at written
  split at written
  · cases written
    decide
  · next b =>
    cases written
    cases b <;> decide
  · split at written
    · next same =>
      cases written
      exact Numeral.text?_nonempty same
    · cases written
  · next d =>
    cases written
    exact d.text_nonempty
  all_goals
    cases written
    simp [quotedText, quotedBytes]

namespace Value

variable {v : Value} {text : String}

theorem quoted_nonempty (written : v.quoted = .ok text) : text ≠ "" := by
  have within {part : Except Unfit (List String)} {opening closing : String} (ne : opening ≠ "")
      (same : (do return opening ++ ", ".intercalate (← part) ++ closing) = .ok text) :
      text ≠ "" := by
    obtain ⟨parts, -, rest⟩ := bind_eq_ok same
    cases rest
    simp [ne]
  unfold quoted at written
  split at written
  · exact Scalar.quoted_nonempty written
  · exact within (by decide) written
  · exact within (by decide) written
  · cases written
    decide
  · exact within (by decide) written
  · obtain ⟨key, -, rest⟩ := bind_eq_ok written
    obtain ⟨value, -, rest⟩ := bind_eq_ok rest
    cases rest
    simp
  · cases written
    decide
  · cases written
    decide

theorem plain_nonempty (present : v.isPresent = true) (written : v.plain = .ok text) :
    text ≠ "" := by
  unfold plain at written
  split at written
  · next s =>
    unfold Scalar.plain at written
    split at written
    · cases written
      simpa [isPresent] using present
    · next d =>
      obtain rfl := Except.ok.inj written
      simp [Date.text]
    · next m =>
      obtain rfl := Except.ok.inj written
      simp [Moment.text]
    · exact Scalar.quoted_nonempty written
  · exact quoted_nonempty written

end Value

/-! ### Ids from names -/

namespace Step

variable {step : Value} {index : Nat}

theorem isNameChar_slug (c : Char) :
    isNameChar (if ('a' ≤ c ∧ c ≤ 'z') ∨ c.isDigit ∨ c = '-' then c else '-') = true := by
  split
  · next own =>
    simp only [isNameChar, Char.isAlphanum, Bool.or_eq_true, beq_iff_eq]
    rcases own with letter | digit | rfl
    · have lower : c.isLower = true :=
        Bool.and_eq_true_iff.mpr ⟨decide_eq_true letter.1, decide_eq_true letter.2⟩
      exact .inl (.inl (.inl (Bool.or_eq_true_iff.mpr (.inr lower))))
    · exact .inl (.inl (.inr digit))
    · exact .inr rfl
  · decide

theorem lowerChar_nonempty (c : Char) : Text.lowerChar c ≠ [] := by
  unfold Text.lowerChar
  split
  · simp
  · split
    · simp
    · split <;> simp

theorem isName_slug {name : String} (nonempty : name ≠ "") : IsName (slug name) where
  nonempty := by
    have first : name.toList ≠ [] := by simpa using nonempty
    obtain ⟨c, rest, text⟩ := List.exists_cons_of_ne_nil first
    rw [slug, String.toList_ofList, Text.lower, text]
    simp [lowerChar_nonempty]
  chars := by
    intro c member
    rw [slug, String.toList_ofList] at member
    obtain ⟨d, -, rfl⟩ := List.mem_map.mp member
    exact isNameChar_slug d

theorem name_nonempty {name : String} (named : Step.name step index = .ok name) : name ≠ "" := by
  obtain ⟨stated, -, rest⟩ := bind_eq_ok named
  split at rest
  · next present =>
    cases written : stated.plain with
    | ok text =>
      rw [written] at rest
      cases rest
      exact Value.plain_nonempty present written
    | error u =>
      rw [written] at rest
      cases rest
  · cases rest
    simp

/-- That a step states no id, so that the one it has comes from its name. -/
def IsUnnamed (step : Value) : Prop :=
  ∃ stated, member "id" step = .ok stated ∧ stated.isPresent = false

theorem isName_id {id : String} (unnamed : IsUnnamed step) (own : Step.id step index = .ok id) :
    IsName id := by
  obtain ⟨stated, read, absent⟩ := unnamed
  obtain ⟨other, same, rest⟩ := bind_eq_ok own
  obtain rfl := Except.ok.inj (read.symm.trans same)
  rw [if_neg (by simp [absent])] at rest
  obtain ⟨name, named, rest⟩ := bind_eq_ok rest
  cases rest
  exact isName_slug (name_nonempty named)

end Step

/-! ### Readers of references -/

/-- That an output of a step is the same text to all of its readers: to a condition of a step of the
job, for which a reference to it is a single token, to a command that is the placeholder of the
reference, and to an output of the job that is. None asks for anything, and nothing is kept. -/
structure Session.ReadsAs (s : Session) (job : Scalar) (id name text : String) : Prop where
  token : tokenize (ofStep id name) = .ok [⟨.name, ofStep id name, 0⟩]
  parsed : Expression.parse (ofStep id name) = .ok (.reference (ofStep id name))
  mentioned : Condition.missing? s.context (some job) (.reference (ofStep id name)) = none
  condition : ∀ workflow matrix,
    (Condition.lookup ⟨workflow, .step job, matrix⟩ (ofStep id name)).perform s =
      (.ok (.fresh (.str text)), s)
  command : ∀ workflow matrix title, ∃ t,
    (fill ⟨workflow, job, matrix⟩ title (String.ofList (Placeholder.of (ofStep id name)))).perform
        s = (.ok text, t) ∧ t.context = s.context ∧ t.questions = s.questions
  output : ∀ workflow matrix, ∃ t,
    (resolveJobOutput ⟨workflow, job, matrix⟩
        (.str (String.ofList (Placeholder.of (ofStep id name))))).perform s = (.ok text, t) ∧
      t.context = s.context ∧ t.questions = s.questions

namespace Reference.IsName

variable {job : Scalar} {id name text : String} {s : Session}

theorem readsAs (owner : IsName id) (dotted : IsDotted name)
    (recorded : s.context.stepOutput? job id name = some text) : s.ReadsAs job id name text := by
  have reference := owner.isReference_ofStep dotted
  have found := owner.step?_ofStep dotted
  have canonical := Placeholder.isCanonical_of_isPath reference.isPath reference.nonempty
  refine ⟨reference.tokenize_eq, reference.parse_eq, ?_, fun workflow matrix => ?_,
    fun workflow matrix title => ?_, fun workflow matrix => ?_⟩
  · have known : Condition.missingAt? s.context (some job) (ofStep id name) = none := by
      simp [Condition.missingAt?, (other_of_step? found).2.1, found, recorded]
    show [ofStep id name].findSome? _ = none
    rw [List.findSome?_cons, known]
    rfl
  · rw [Condition.perform_lookup_of_step? rfl found, recorded]
    rfl
  · have finds := finds_of_substitute ⟨workflow, job, matrix⟩ found s
    rw [recorded] at finds
    obtain ⟨t, given, first⟩ := finds.of_known
    obtain ⟨u, filled, second⟩ := perform_fill_placeholder canonical given title
    have noted := first.trans second
    exact ⟨u, filled, noted.context, noted.questions⟩
  · let placeholder := String.ofList (Placeholder.of (ofStep id name))
    have stated : (Value.str placeholder).expressionText = .ok placeholder := rfl
    have own : s.context.stepOutput? (Scope.mk workflow job matrix).job id name = some text :=
      recorded
    obtain ⟨t, given, noted⟩ := perform_resolveJobOutput_of_stepPlaceholder? stated
      (owner.stepPlaceholder?_ofStep dotted) own
    exact ⟨t, given, noted.context, noted.questions⟩

end Reference.IsName

/-- A step without id, and an output of it whose name has two parts. -/
def titledStep : Value := .map [(.str "name", .str "Unit tests")]

def titledSession : Session where
  context := Context.recordStep (.str "build") "unit-tests" [("report.path", "out/a.xml")] {}

end Rehearsal
