import Rehearsal.Proofs.Condition.Early
import Rehearsal.Proofs.Expression.Quoting
import Rehearsal.Proofs.Expression.Wrapping

/-! A condition can be written with a placeholder around it. That makes no difference as long as the
condition has no closing brace when the placeholders in its quoted texts are replaced:
`wrapping_is_transparent`. The placeholder ends at the first closing brace, also at one in a quoted
text; if no other one follows there, nothing is taken away and the condition is false
(`wrapping_makes_a_difference`). -/

namespace Rehearsal.Condition

open Play Expression Rehearsal.Text

variable {frame : Frame} {text other : List Char} {s t : Session}

/-! ### Text around a condition -/

theorem replaceEach_around (f : List Char → Play (List Char)) (left right : List Char)
    (pieces : List Piece) :
    replaceEach f (left.map .plain ++ (pieces ++ right.map .plain)) =
      (fun replaced => left ++ (replaced ++ right)) <$> replaceEach f pieces := by
  rw [replaceEach_append, replaceEach_append, replaceEach_plain, replaceEach_plain]
  simp only [pure_bind, bind_assoc, map_eq_pure_bind]

theorem splice_around (frame : Frame) {left right : List Char}
    (before : ∀ q : Quote, q.mark ∉ left) (after : ∀ q : Quote, q.mark ∉ right)
    (text : List Char) :
    splice frame (left ++ (text ++ right)) =
      (fun spliced => left ++ (spliced ++ right)) <$> splice frame text := by
  rw [splice_eq, splice_eq, cut_append_of_unquoted before, Quoted.cut_append_unquoted after,
    replaceEach_around]

/-! ### The ends of a condition -/

/-- That two texts begin with the same character and end with the same one. -/
structure SameEnds (s t : List Char) : Prop where
  head : s.head? = t.head?
  last : s.getLast? = t.getLast?

theorem SameEnds.append {s s' t t' : List Char} (first : SameEnds s s') (rest : SameEnds t t') :
    SameEnds (s ++ t) (s' ++ t') where
  head := by rw [List.head?_append, List.head?_append, first.head, rest.head]
  last := by rw [List.getLast?_append, List.getLast?_append, first.last, rest.last]

theorem sameEnds_of_replaceEach {f : List Char → Play (List Char)} {pieces : List Piece}
    {replaced : List Char}
    (keeps : ∀ w, .found w ∈ pieces → ∀ s x t, (f w).perform s = (.ok x, t) → SameEnds x w)
    (performed : (replaceEach f pieces).perform s = (.ok replaced, t)) :
    SameEnds replaced (pieces.flatMap Piece.chars) := by
  induction pieces generalizing s replaced with
  | nil =>
    cases performed
    exact ⟨rfl, rfl⟩
  | cons piece pieces ih =>
    have others {s : Session} {rest : List Char}
        (later : (replaceEach f pieces).perform s = (.ok rest, t)) :=
      ih (fun w member => keeps w (.tail piece member)) later
    rw [replaceEach.eq_def] at performed
    rw [List.flatMap_cons]
    cases piece with
    | plain c =>
      obtain ⟨rest, u, later, last⟩ := perform_bind_eq_ok performed
      cases last
      exact SameEnds.append (s := [c]) ⟨rfl, rfl⟩ (others later)
    | found w =>
      obtain ⟨own, u, written, further⟩ := perform_bind_eq_ok performed
      obtain ⟨rest, v, later, last⟩ := perform_bind_eq_ok further
      cases last
      exact (keeps w List.mem_cons_self s own u written).append (others later)

theorem sameEnds_of_spliceLiteral {q : Quote} {m replaced : List Char}
    (performed : (spliceLiteral frame (q.literal m)).perform s = (.ok replaced, t)) :
    SameEnds replaced (q.literal m) := by
  have unclosed : '\x7d' ∉ [q.mark] := by cases q <;> decide
  have pieces : cut Placeholder.length? (q.literal m) =
      [q.mark].map .plain ++ (cut Placeholder.length? m ++ [q.mark].map .plain) := by
    rw [← Placeholder.cut_append_unclosed unclosed]
    cases q <;> rfl
  rw [spliceLiteral, pieces, replaceEach_around, perform_map] at performed
  split at performed
  · cases performed
    refine ⟨rfl, ?_⟩
    simp [Quote.literal, List.getLast?_append, List.getLast?_cons]
  · cases performed

theorem sameEnds_of_splice {replaced : List Char}
    (performed : (splice frame text).perform s = (.ok replaced, t)) : SameEnds replaced text := by
  rw [splice_eq] at performed
  have ends := sameEnds_of_replaceEach (fun w member s x t written => ?_) performed
  · rwa [flatMap_chars_cut fun s n found => (Quoted.length?_bounds found).1] at ends
  · obtain ⟨-, rest, n, -, found, rfl⟩ := exists_of_found member
    obtain ⟨q, m, -, own⟩ := Quoted.exists_literal_of_length? found
    rw [own] at written ⊢
    exact sameEnds_of_spliceLiteral written

theorem trim_of_splice {replaced : List Char}
    (performed : (splice frame (trim text)).perform s = (.ok replaced, t)) :
    trim replaced = replaced := by
  have ends := sameEnds_of_splice performed
  refine trim_eq_self (fun c first => ?_) fun c last => ?_
  · exact head?_trim text c (ends.head ▸ first)
  · exact getLast?_trim text c (ends.last ▸ last)

/-! ### Reading a condition in a placeholder -/

/-- The blanks between a condition and the marks of the placeholder around it. -/
structure Margins where
  before : List Char
  after : List Char
  before_blank : ∀ c ∈ before, isBlank c = true
  after_blank : ∀ c ∈ after, isBlank c = true
  before_ne_nil : before ≠ []
  after_ne_nil : after ≠ []

namespace Margins

variable (m : Margins)

def around (text : List Char) : List Char :=
  (Placeholder.opening ++ m.before) ++ (text ++ (m.after ++ Placeholder.closing))

theorem splice_around (frame : Frame) (text : List Char) :
    splice frame (m.around text) = m.around <$> splice frame text := by
  refine Condition.splice_around frame (fun q member => ?_) (fun q member => ?_) text
  · rcases List.mem_append.mp member with own | own
    · cases q <;> exact absurd own (by decide)
    · exact not_mem_of_blank m.before_blank q.visible own
  · rcases List.mem_append.mp member with own | own
    · exact not_mem_of_blank m.after_blank q.visible own
    · cases q <;> exact absurd own (by decide)

theorem around_eq (text : List Char) : m.around text =
    Placeholder.opening ++ ((m.before ++ (text ++ m.after)) ++ Placeholder.closing) := by
  simp [around]

theorem unwrap_around (unclosed : '\x7d' ∉ text) :
    Placeholder.unwrap (m.around text) = trim text := by
  have inside : '\x7d' ∉ m.before ++ (text ++ m.after) := by
    simp only [List.mem_append, not_or]
    exact ⟨not_mem_of_blank m.before_blank (by decide), unclosed,
      not_mem_of_blank m.after_blank (by decide)⟩
  have some : m.before ++ (text ++ m.after) ≠ [] := by simp [m.before_ne_nil]
  rw [around_eq, Placeholder.unwrap_of_unclosed some inside, trim_blank_append m.before_blank,
    trim_append_blanks m.after_blank]

/-- If the first closing brace of a text is alone, the mark that opens the placeholder is left. -/
theorem exists_unwrap_around {a b : List Char} (unclosed : '\x7d' ∉ a)
    (single : b.head? ≠ some '\x7d') :
    ∃ rest, Placeholder.unwrap (m.around (a ++ '\x7d' :: b)) = '$' :: rest := by
  have inside : '\x7d' ∉ m.before ++ a := by
    simp only [List.mem_append, not_or]
    exact ⟨not_mem_of_blank m.before_blank (by decide), unclosed⟩
  have alone : (b ++ (m.after ++ Placeholder.closing)).head? ≠ some '\x7d' := by
    obtain ⟨c, after, same⟩ := List.exists_cons_of_ne_nil m.after_ne_nil
    rw [List.head?_append]
    cases first : b.head? with
    | some d => exact fun same => single (first.trans same)
    | none =>
      rw [same]
      rintro ⟨⟩
      exact not_mem_of_blank m.after_blank (by decide) (same ▸ List.mem_cons_self)
  obtain ⟨rest, left⟩ := Placeholder.exists_unwrap_of_single_brace inside alone
  refine ⟨rest, ?_⟩
  rw [← left]
  simp [around]

theorem trim_around : trim (m.around text) = m.around text := by
  refine trim_eq_self ?_ ?_
  · rintro c ⟨⟩
    decide
  · intro c last
    rw [around_eq, List.getLast?_append, List.getLast?_append] at last
    obtain rfl : '\x7d' = c := Option.some.inj last
    decide

end Margins

/-- A placeholder around a condition stands around what is left of it without blanks at its ends. -/
theorem exists_margins (e : String) :
    ∃ m : Margins, Placeholder.of e = m.around (trim e.toList) := by
  obtain ⟨before, after, same, first, last⟩ := exists_trim e.toList
  refine ⟨⟨' ' :: before, after ++ [' '], ?_, ?_, List.cons_ne_nil _ _, by simp⟩, ?_⟩
  · exact List.forall_mem_cons.mpr ⟨by decide, first⟩
  · exact List.forall_mem_append.mpr ⟨last, List.forall_mem_singleton.mpr (by decide)⟩
  · rw [Placeholder.of, Margins.around]
    conv_lhs => rw [same]
    simp

/-- That the condition holds no closing brace when its quoted placeholders are replaced. -/
def Unclosed (frame : Frame) (text : List Char) (s : Session) : Prop :=
  ∀ replaced t, (splice frame text).perform s = (.ok replaced, t) → '\x7d' ∉ replaced

theorem Unclosed.perform_expression_around (unclosed : Unclosed frame (trim text) s)
    (m : Margins) :
    (expression frame (m.around (trim text))).perform s =
      (expression frame (trim text)).perform s := by
  rw [expression, expression, m.splice_around, perform_bind, perform_bind, perform_map]
  cases performed : (splice frame (trim text)).perform s with
  | mk result t =>
    cases result with
    | error fault => rfl
    | ok replaced =>
      have own := unclosed replaced t performed
      dsimp only
      rw [m.unwrap_around own, Placeholder.unwrap_eq_self own, trim_of_splice performed]

/-! ### The decision -/

structure Coincide {α : Type} (p q : Except Fault α × Session) : Prop where
  outcome : q.1 = p.1
  noted : ∃ u : Session, u.Noted p.2 ∧ u.Noted q.2

theorem Coincide.refl {α : Type} (p : Except Fault α × Session) : Coincide p p :=
  ⟨rfl, p.2, .refl _, .refl _⟩

theorem decideExpr_coincide (text other : List Char) (e : Expr) (s : Session) :
    Coincide ((decideExpr frame text e).perform s) ((decideExpr frame other e).perform s) := by
  cases missing : missing? s.context frame.owner.stepsOf? e with
  | some output =>
    obtain ⟨u, told, noted⟩ := @perform_decideExpr_of_missing frame text _ _ _ missing
    obtain ⟨u', told', noted'⟩ := @perform_decideExpr_of_missing frame other _ _ _ missing
    rw [told, told']
    exact ⟨rfl, s, noted, noted'⟩
  | none =>
    cases evaluated : (evaluate frame e).perform s with
    | mk result t =>
      cases result with
      | ok operand =>
        rw [perform_decideExpr_of_ok missing evaluated, perform_decideExpr_of_ok missing evaluated]
        exact .refl _
      | error fault =>
        obtain ⟨u, told, noted⟩ :=
          @perform_decideExpr_of_fault frame text _ _ _ _ missing evaluated
        obtain ⟨u', told', noted'⟩ :=
          @perform_decideExpr_of_fault frame other _ _ _ _ missing evaluated
        rw [told, told']
        exact ⟨rfl, t, noted, noted'⟩

theorem decideText_coincide
    (same : (expression frame other).perform s = (expression frame text).perform s) :
    Coincide ((decideText frame text).perform s) ((decideText frame other).perform s) := by
  cases performed : (expression frame text).perform s with
  | mk result t =>
    rw [performed] at same
    cases result with
    | ok e =>
      rw [perform_decideText_of_ok performed, perform_decideText_of_ok same]
      exact decideExpr_coincide text other e t
    | error fault =>
      obtain ⟨u, told, noted⟩ := perform_decideText_of_fault performed
      obtain ⟨u', told', noted'⟩ := perform_decideText_of_fault same
      rw [told, told']
      exact ⟨rfl, t, noted, noted'⟩

/-! ### The condition -/

theorem parse_dollar (rest : List Char) :
    Expression.parse (String.ofList ('$' :: rest)) = .error (.character '$' 0) := by
  rw [Expression.parse, tokenize, String.toList_ofList]
  rfl

theorem lexed_blank {s : List Char} (blank : ∀ c ∈ s, isBlank c = true) (position : Nat) :
    Lexed position s [] := by
  induction s generalizing position with
  | nil => exact .nil position
  | cons c s ih =>
    obtain ⟨first, others⟩ := List.forall_mem_cons.mp blank
    exact .blank first (ih others _)

theorem trim_ne_nil_of_parse {e : String} {tree : Expr} (accepted : Expression.parse e = .ok tree) :
    trim e.toList ≠ [] := by
  intro empty
  obtain ⟨before, after, same, first, last⟩ := exists_trim e.toList
  rw [empty, List.append_nil] at same
  have blank : ∀ c ∈ e.toList, isBlank c = true := by
    rw [same]
    exact List.forall_mem_append.mpr ⟨first, last⟩
  rw [Expression.parse, tokenize_iff.mpr (lexed_blank blank 0)] at accepted
  cases accepted

theorem perform_holds_str {e : String} (some : trim e.toList ≠ []) (s : Session) :
    (holds frame (.str e)).perform s = (decideText frame (trim e.toList)).perform s :=
  perform_holds_of_text (by simp [expressionText?, Value.plain, Scalar.plain, some]) s

def wrapped (e : String) : Value := .str (String.ofList (Placeholder.of e))

theorem perform_holds_wrapped {e : String} {m : Margins}
    (same : Placeholder.of e = m.around (trim e.toList)) (s : Session) :
    (holds frame (wrapped e)).perform s =
      (decideText frame (m.around (trim e.toList))).perform s := by
  have own : trim (String.ofList (Placeholder.of e)).toList = m.around (trim e.toList) := by
    rw [String.toList_ofList, same, m.trim_around]
  rw [wrapped, perform_holds_str, own]
  rw [own]
  exact List.cons_ne_nil _ _

/-- **Wrapping is transparent.** A condition with a placeholder around it has the same outcome, asks
the same and keeps the same as the condition alone, if that holds no closing brace when the
placeholders in its quoted texts are replaced. If it does then hold one, and the first is alone, it
is false in a placeholder. -/
theorem wrapping_is_transparent (frame : Frame) {e : String} {tree : Expr}
    (accepted : Expression.parse e = .ok tree) (s : Session) :
    (Unclosed frame (trim e.toList) s →
      ((holds frame (wrapped e)).perform s).1 = ((holds frame (.str e)).perform s).1 ∧
      ((holds frame (wrapped e)).perform s).2.questions =
        ((holds frame (.str e)).perform s).2.questions ∧
      ((holds frame (wrapped e)).perform s).2.context =
        ((holds frame (.str e)).perform s).2.context) ∧
    ∀ a b t, (splice frame (trim e.toList)).perform s = (.ok (a ++ '\x7d' :: b), t) →
      '\x7d' ∉ a → b.head? ≠ some '\x7d' →
      ((holds frame (wrapped e)).perform s).1 = .ok false := by
  obtain ⟨m, same⟩ := exists_margins e
  rw [perform_holds_wrapped same, perform_holds_str (trim_ne_nil_of_parse accepted)]
  constructor
  · intro unclosed
    obtain ⟨outcome, u, first, second⟩ :=
      decideText_coincide (unclosed.perform_expression_around m)
    exact ⟨outcome, second.questions.trans first.questions.symm,
      second.context.trans first.context.symm⟩
  · intro a b t spliced unclosed single
    obtain ⟨rest, left⟩ := m.exists_unwrap_around unclosed single
    have refused : (expression frame (m.around (trim e.toList))).perform s =
        (.error (.parse (.character '$' 0)), t) := by
      rw [expression, m.splice_around, perform_bind, perform_map, spliced]
      dsimp only
      rw [left, perform_parsed, parse_dollar]
      rfl
    exact decideText_of_meets (.reading refused)

def markedFrame (text : String) : Frame := ⟨[], .job, [(.str "m", .str text)]⟩

/-- A condition with parentheses, quotes in a quoted text and a quoted placeholder. -/
def bracketed : String := "('it''s' == '$\x7b\x7b matrix.m \x7d\x7d') && !(matrix.m == 'x')"

def braced : String := "matrix.m != '\x7b\x7d'"

theorem wrapping_is_transparent_bracketed :
    ((holds (markedFrame "it's") (wrapped bracketed)).perform {}).1.toOption = some true ∧
    ((holds (markedFrame "it's") (wrapped bracketed)).perform {}).2.questions = [] ∧
    ((holds (markedFrame "it's") (wrapped bracketed)).perform {}).2.context.resolved = [] ∧
    ((holds (markedFrame "x") (wrapped braced)).perform {}).1 = .ok false := by
  have spliced : ((splice (markedFrame "it's") (trim bracketed.toList)).perform {}).1.toOption =
      some "('it''s' == 'it''s') && !(matrix.m == 'x')".toList := by decide +kernel
  have unclosed : Unclosed (markedFrame "it's") (trim bracketed.toList) {} := by
    intro replaced t performed
    rw [performed] at spliced
    obtain rfl := Option.some.inj spliced
    decide +kernel
  obtain ⟨tree, accepted⟩ := exists_of_accepted (s := bracketed) (by decide +kernel)
  obtain ⟨other, read⟩ := exists_of_accepted (s := braced) (by decide +kernel)
  obtain ⟨outcome, questions, context⟩ :=
    (wrapping_is_transparent (markedFrame "it's") accepted {}).1 unclosed
  have brace : trim braced.toList = "matrix.m != '\x7b".toList ++ '\x7d' :: ['\''] := by
    decide +kernel
  have alone : (splice (markedFrame "x") (trim braced.toList)).perform {} =
      (.ok (trim braced.toList), {}) := perform_splice_of_isFree (by decide +kernel) {}
  refine ⟨(congrArg Except.toOption outcome).trans (by decide +kernel),
    questions.trans (by decide +kernel),
    (congrArg Context.resolved context).trans (by decide +kernel), ?_⟩
  refine (wrapping_is_transparent (markedFrame "x") read {}).2 "matrix.m != '\x7b".toList ['\'']
    {} ?_ (by decide +kernel) (by decide)
  rw [alone, brace]

/-- Around a condition with a closing brace in a quoted text the placeholder makes a difference. -/
theorem wrapping_makes_a_difference :
    (Expression.parse braced).toOption.isSome = true ∧
    ((holds (markedFrame "x") (.str braced)).perform {}).1.toOption = some true ∧
    ((holds (markedFrame "x") (wrapped braced)).perform {}).1.toOption = some false := by
  decide +kernel

end Rehearsal.Condition
