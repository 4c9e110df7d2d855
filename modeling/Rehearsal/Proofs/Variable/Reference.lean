import Rehearsal.Proofs.Expression.Leaves
import Rehearsal.Proofs.Value.Mention
import Rehearsal.Proofs.Variable.Resolve

/-! How a reference to an output is read, in a condition and in a command, and where it stands if
resolving an expression leads to it: `stands_of_mem_chain`, `stands_of_extract`. -/

namespace Rehearsal

namespace Reference

theorem suffix_of_segment? {s owner more : List Char} (segment : segment? s = some (owner, more)) :
    more <:+ s := by
  unfold segment? at segment
  split at segment
  · cases segment
  · cases segment
    exact List.dropWhile_suffix _

theorem segment?_append {owner rest : List Char} (nonempty : owner ≠ []) (whole : '.' ∉ owner) :
    segment? (owner ++ '.' :: rest) = some (owner, '.' :: rest) := by
  have plain : ∀ c ∈ owner, decide (c ≠ '.') = true := by
    intro c member
    exact decide_eq_true fun same => whole (same ▸ member)
  rw [segment?, List.takeWhile_append_of_pos plain, List.dropWhile_append_of_pos plain]
  simp

theorem output?_of_isPath {root owner name : String} (whole : '.' ∉ owner.toList)
    (path : Expression.IsPath (root ++ "." ++ owner ++ ".outputs." ++ name).toList) :
    output? root (root ++ "." ++ owner ++ ".outputs." ++ name) = some (owner, name) := by
  have text : (root ++ "." ++ owner ++ ".outputs." ++ name).toList =
      (root.toList ++ ['.']) ++ (owner.toList ++ '.' :: ("outputs.".toList ++ name.toList)) := by
    simp
  rw [text] at path
  obtain ⟨first, rest, starts, part⟩ := Expression.IsPath.after_dot (a := root.toList)
    (b := owner.toList ++ '.' :: ("outputs.".toList ++ name.toList)) (by simpa using path)
  obtain ⟨last, others, names, -⟩ := Expression.IsPath.after_dot
    (a := root.toList ++ '.' :: owner.toList ++ ".outputs".toList) (b := name.toList)
    (by simpa using path)
  have owned : owner.toList ≠ [] := by
    intro none
    rw [none] at starts
    obtain ⟨rfl, -⟩ := List.cons.inj starts
    exact absurd part (by decide)
  have line : '\n' ∉ name.toList := by
    intro member
    have shape := path.isPartChar_or (List.mem_append_right _ (List.mem_append_right _
      (List.mem_cons_of_mem _ (List.mem_append_right _ member))))
    exact absurd shape (by decide)
  have ends : dropLineEnd name.toList = name.toList :=
    if_neg fun last => line (List.mem_of_getLast? last)
  have outputs : Text.after? ".outputs.".toList ('.' :: ("outputs.".toList ++ name.toList)) =
      some name.toList := Text.after?_append ".outputs.".toList _
  have filled : ¬(name.toList.isEmpty || name.toList.contains '\n') = true := by
    simp [names ▸ line, names]
  rw [output?, text, Text.after?_append, Option.bind_eq_bind, Option.bind_some,
    segment?_append owned whole]
  simp only [Option.bind_eq_bind, Option.bind_some, outputs, ends]
  rw [if_neg filled, String.ofList_toList, String.ofList_toList]

/-- A name of letters, digits, underscores and hyphens. -/
structure IsName (s : String) : Prop where
  nonempty : s.toList ≠ []
  chars : ∀ c ∈ s.toList, Expression.isNameChar c = true

instance (s : String) : Decidable (IsName s) :=
  decidable_of_iff (s.toList ≠ [] ∧ s.toList.all Expression.isNameChar = true)
    ⟨fun ⟨nonempty, chars⟩ => ⟨nonempty, List.all_eq_true.mp chars⟩,
      fun ⟨nonempty, chars⟩ => ⟨nonempty, List.all_eq_true.mpr chars⟩⟩

/-- A name of one or more parts, with dots between them. -/
inductive IsDotted : String → Prop
  | name {s : String} (is : IsName s) : IsDotted s
  | parts {s t : String} (is : IsName s) (more : IsDotted t) : IsDotted (s ++ "." ++ t)

/-- The text that refers to an output of a needed job. -/
def needed (job name : String) : String := "needs." ++ job ++ ".outputs." ++ name

def neededStart (job : String) : List Char := "needs.".toList ++ (job.toList ++ ".outputs.".toList)

theorem neededStart_eq (job : String) :
    neededStart job = "needs.".toList ++ (job.toList ++ ".outputs.".toList) := rfl

theorem toList_needed (job name : String) :
    (needed job name).toList = neededStart job ++ name.toList := by
  simp [needed, neededStart_eq]

namespace IsName

variable {s job name : String}

theorem not_mem {c : Char} (is : IsName s) (other : Expression.isNameChar c = false) :
    c ∉ s.toList := by
  intro member
  rw [is.chars c member] at other
  cases other

theorem isPartChar (is : IsName s) : ∀ c ∈ s.toList, Expression.isPartChar c = true := by
  intro c member
  rw [Expression.isPartChar, is.chars c member]
  rfl

theorem isPath_dot (is : IsName s) {rest : List Char} (path : Expression.IsPath rest) :
    Expression.IsPath ('.' :: (s.toList ++ rest)) := by
  have parts := is.isPartChar
  cases text : s.toList with
  | nil => exact absurd text is.nonempty
  | cons c tail =>
    rw [text, List.forall_mem_cons] at parts
    exact .dot parts.1 (.append parts.2 path)

end IsName

namespace IsDotted

theorem isPath_dot {s : String} (dotted : IsDotted s) {rest : List Char}
    (path : Expression.IsPath rest) : Expression.IsPath ('.' :: (s.toList ++ rest)) := by
  induction dotted with
  | name is => exact is.isPath_dot path
  | parts is _ ih => simpa using is.isPath_dot ih

theorem nonempty {s : String} (dotted : IsDotted s) : s.toList ≠ [] := by
  cases dotted with
  | name is => exact is.nonempty
  | parts is => simp [is.nonempty]

end IsDotted

namespace IsName

variable {job name : String}

theorem isPath_outputs {root : String} (rooted : IsName root) (owner : IsName job)
    (dotted : IsDotted name) :
    Expression.IsPath (root ++ "." ++ job ++ ".outputs." ++ name).toList := by
  have last := dotted.isPath_dot .nil
  have middle := (show IsName "outputs" by decide).isPath_dot last
  have first := owner.isPath_dot middle
  simpa using Expression.IsPath.append rooted.isPartChar first

theorem isPath_needed (owner : IsName job) (named : IsName name) :
    Expression.IsPath (needed job name).toList := by
  have whole := isPath_outputs (show IsName "needs" by decide) owner (.name named)
  rw [toList_needed, neededStart_eq]
  simpa using whole

theorem job?_needed (owner : IsName job) (named : IsName name) :
    job? (needed job name) = some (job, name) :=
  @output?_of_isPath "needs" job name (owner.not_mem (by decide)) (owner.isPath_needed named)

end IsName

theorem exists_of_jsonWithin? {s inner : List Char} (found : jsonWithin? s = some inner) :
    ∃ before rest, s = before ++ "fromJSON(".toList ++ (inner ++ rest) := by
  induction s with
  | nil => cases found
  | cons c s ih =>
    rw [jsonWithin?] at found
    cases start : jsonAtStart? (c :: s) with
    | some body =>
      rw [start] at found
      obtain rfl := Option.some.inj found
      simp only [jsonAtStart?, Option.bind_eq_bind, Option.bind_eq_some_iff] at start
      obtain ⟨rest, after, start⟩ := start
      split at start
      · cases start
      · obtain rfl := Option.some.inj start
        refine ⟨[], rest.dropWhile (· ≠ ')'), ?_⟩
        rw [Text.after?_eq_some after, List.takeWhile_append_dropWhile, List.nil_append]
    | none =>
      rw [start] at found
      obtain ⟨before, rest, same⟩ := ih found
      exact ⟨c :: before, rest, congrArg (c :: ·) same⟩

theorem jsonWithin?_of_isPath {s : List Char} (path : Expression.IsPath s) :
    jsonWithin? s = none := by
  refine Option.eq_none_iff_forall_ne_some.mpr fun inner found => ?_
  obtain ⟨before, rest, same⟩ := exists_of_jsonWithin? found
  have member : '(' ∈ s := by
    rw [same]
    exact List.mem_append_left _ (List.mem_append_right _ (by decide))
  exact absurd (path.isPartChar_or member) (by decide)

/-! ### Reading references to outputs of needed jobs -/

theorem isJobResult_of_job? {text needed name : String}
    (found : job? text = some (needed, name)) : isJobResult text = false := by
  simp only [job?, output?, Option.bind_eq_bind, Option.bind_eq_some_iff] at found
  obtain ⟨rest, start, ⟨owner, more⟩, segment, last, outputs, -⟩ := found
  have after : Text.after? "needs.".toList text.toList = some rest := start
  have whole : more = '.' :: 'o' :: ("utputs.".toList ++ last) := Text.after?_eq_some outputs
  have other : dropLineEnd more ≠ ".result".toList := by
    rw [whole, dropLineEnd]
    split <;> simp
  simp only [isJobResult, after, segment, Option.bind_eq_bind, Option.bind_some, if_neg other]
  rfl

section Job

variable {text job name : String} (path : Expression.IsPath text.toList)
  (found : job? text = some (job, name))
include path found

theorem parts_of_job? : ∃ rest, text.toList = "needs.".toList ++ rest ∧
    segment? rest = some (job.toList, ".outputs.".toList ++ name.toList) ∧ name.toList ≠ [] ∧
      '\n' ∉ name.toList := by
  simp only [job?, output?, Option.bind_eq_bind, Option.bind_eq_some_iff] at found
  obtain ⟨rest, after, ⟨owner, more⟩, segment, last, outputs, same⟩ := found
  split at same
  · cases same
  · next filled =>
    cases same
    obtain rfl := Text.after?_eq_some outputs
    rw [Bool.or_eq_true, not_or, List.isEmpty_iff] at filled
    have inside : ∀ c ∈ last, c ∈ text.toList := by
      intro c member
      rw [Text.after?_eq_some after]
      exact List.mem_append_right _ <|
        (suffix_of_segment? segment).subset (List.mem_append_right _ member)
    have line : '\n' ∉ last := fun member =>
      absurd (path.isPartChar_or (inside _ member)) (by decide)
    have ends : dropLineEnd last = last := if_neg fun ends => line (List.mem_of_getLast? ends)
    rw [ends] at filled ⊢
    refine ⟨rest, Text.after?_eq_some after, ?_, ?_, ?_⟩
    · simpa only [String.toList_ofList] using segment
    · rw [String.toList_ofList]
      exact filled.1
    · rw [String.toList_ofList]
      exact line

theorem jobAtStart?_of_job? : jobAtStart? text.toList = some (job, name) := by
  obtain ⟨rest, whole, segment, nonempty, line⟩ := parts_of_job? path found
  have all : name.toList.takeWhile (· ≠ '\n') = name.toList :=
    List.takeWhile_eq_self_iff.mpr fun c member =>
      decide_eq_true fun same => line (same ▸ member)
  simp only [jobAtStart?, whole, Text.after?_append, segment, Option.bind_eq_bind,
    Option.bind_some, all, String.ofList_toList]

theorem source_of_job? : Source.of text = .output job name := by
  have begins := jobAtStart?_of_job? path found
  obtain ⟨rest, whole, -⟩ := parts_of_job? path found
  replace whole : text.toList = 'n' :: ("eeds.".toList ++ rest) := whole
  have free : jsonWithin? text.toList = none := jsonWithin?_of_isPath path
  have start : Source.ofStart? text = none := by
    have other {start : String} (ne : start.toList.head? ≠ some 'n') : start ≠ text := by
      rintro rfl
      rw [whole] at ne
      exact ne rfl
    have menus : Source.menus.find? (·.1 == text) = none := by
      refine List.find?_eq_none.mpr fun entry member => ?_
      have known : ∀ entry ∈ Source.menus, entry.1.toList.head? ≠ some 'n' := by decide
      exact fun same => other (known entry member) (eq_of_beq same)
    simp [Source.ofStart?, menus, Source.suggestions, Text.startsWith, Text.rest?, whole,
      Text.after?]
  have within : jobWithin? text.toList = some (job, name) := by
    rw [whole] at begins ⊢
    rw [jobWithin?, begins]
    rfl
  rw [Source.of, start, free, within]

end Job

end Reference

/-! ### Where an expression stands -/

open Text

theorem stands_of_extract {word : List Char} {text expression : String}
    (member : expression ∈ Expression.Placeholder.extract text)
    (stands : Stands word expression.toList) : Stands word text.toList := by
  obtain ⟨piece, cut, made⟩ := List.mem_filterMap.mp member
  cases piece with
  | plain c => cases made
  | found placeholder =>
    obtain rfl := Option.some.inj made
    obtain ⟨before, rest, n, same, length, rfl⟩ := exists_of_found cut
    obtain ⟨body, inside, rfl⟩ := Option.map_eq_some_iff.mp length
    simp only [Expression.Placeholder.inside?, Option.bind_eq_bind,
      Option.bind_eq_some_iff] at inside
    obtain ⟨inner, after, -⟩ := inside
    rw [String.toList_ofList, Expression.Placeholder.expression, List.drop_take] at stands
    have own : Stands word (rest.drop 3) := stands.of_trim.of_isPrefix <|
      (List.dropLast_prefix _).trans <| (List.dropLast_prefix _).trans (List.take_prefix ..)
    obtain rfl := after?_eq_some after
    rw [same, ← List.append_assoc]
    -- What comes before the expression ends in a brace, not in a backslash.
    exact own.append_left_of_last before (c := '\x7b') (by decide) (by decide)

theorem exists_of_json {inner : List Char} {expression : String}
    (json : Source.of expression = .json inner) :
    ∃ before body rest, inner = trim body ∧
      expression.toList = before ++ "fromJSON(".toList ++ (body ++ rest) := by
  unfold Source.of at json
  split at json
  · next source found => exact absurd (json ▸ found) (Source.ofStart?_ne_json _ _)
  · split at json
    · next body found =>
      cases json
      obtain ⟨before, rest, same⟩ := Reference.exists_of_jsonWithin? found
      exact ⟨before, body, rest, rfl, same⟩
    · split at json <;> cases json

theorem stands_of_json {word inner : List Char} {expression : String}
    (json : Source.of expression = .json inner) (stands : Stands word inner) :
    Stands word expression.toList := by
  obtain ⟨before, body, rest, rfl, same⟩ := exists_of_json json
  rw [same]
  exact (stands.of_trim.append_right rest).append_left_of_last before (c := '(') (by decide)
    (by decide)

theorem stands_of_mem_chain {s : Session} {expression x : String}
    (member : x ∈ chain s expression) : Stands x.toList expression.toList := by
  unfold chain at member
  split at member
  · rw [List.mem_singleton.mp member]
    exact .self _
  · split at member
    · next inner own =>
      have shorter := Source.length_lt_of_json own
      rcases List.mem_append.mp member with inside | last
      · have stands := stands_of_mem_chain inside
        rw [String.toList_ofList] at stands
        exact stands_of_json own stands
      · rw [List.mem_singleton.mp last]
        exact .self _
    · rw [List.mem_singleton.mp member]
      exact .self _
termination_by expression.length
decreasing_by simpa using shorter

/-! ### Expressions that avoid a reference -/

/-- That resolving an expression never leads to a reference to an output. -/
def Avoids (job name expression : String) : Prop :=
  ∀ s, Reference.needed job name ∉ chain s expression

namespace Reference.IsName

variable {job name : String}

theorem isNeeds_start (owner : IsName job) : IsNeeds (neededStart job) where
  starts := by
    rw [neededStart_eq]
    exact (show "needs".toList <+: "needs.".toList by decide).trans (List.prefix_append ..)
  chars := by
    have known : IsName "x" := by decide
    intro c member
    refine (owner.isPath_needed known).isPartChar_or ?_
    rw [toList_needed]
    exact List.mem_append_left _ member

theorem uses_of_not_mentions (owner : IsName job) (name : String) {v : Value}
    (none : ¬v.Mentions (neededStart job)) : v.Uses (Avoids job name) := by
  intro part inside text told expression member s way
  have stands := stands_of_mem_chain way
  rw [toList_needed] at stands
  have mentions := Value.mentions_of_expressionText owner.isNeeds_start told
    (stands_of_extract member stands.start)
  exact none (mentions.of_inside inside)

theorem avoids_of_isPath (owner : IsName job) (named : IsName name) {path : String}
    (shape : Expression.IsPath path.toList) (other : job? path = none) :
    Avoids job name path := by
  intro s way
  have plain (inner : List Char) : Source.of path ≠ .json inner := by
    intro json
    obtain ⟨before, body, rest, -, same⟩ := exists_of_json json
    have member : '(' ∈ path.toList := by
      rw [same]
      exact List.mem_append_left _ (List.mem_append_right _ (by decide))
    exact absurd (shape.isPartChar_or member) (by decide)
  rw [chain_of_other plain, List.mem_singleton] at way
  rw [← way, owner.job?_needed named] at other
  cases other

end Reference.IsName
end Rehearsal
