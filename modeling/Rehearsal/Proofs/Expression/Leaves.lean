import Rehearsal.Condition
import Rehearsal.Proofs.Expression.Exact

/-! A name among tokens is free if it is no keyword and no parenthesis after it makes it the name of
a function. The references of an expression are the free names of its tokens, one for each time that
they are written (`references_are_free_names`), so each of them is a path (`references_of_parse`).
The constants of an expression can be written as texts and counted as numbers, whatever numerals
stand in it (`parse_modest`). Both are read off the derivation of the expression, rule by rule. -/

namespace Rehearsal

structure Scalar.Modest (s : Scalar) : Prop where
  flawless : ∀ u, s.hasFlaw u = false
  counts : ∀ i, s = .int i → (Double.ofInt? i).isSome = true

namespace Expr

mutual

def Modest : Expr → Prop
  | literal value => value.Modest
  | reference _ => True
  | call _ arguments => AllModest arguments
  | not operand => Modest operand
  | binary _ left right => Modest left ∧ Modest right

def AllModest : List Expr → Prop
  | [] => True
  | e :: es => Modest e ∧ AllModest es

def calls (function : String) : Expr → Bool
  | literal _ => false
  | reference _ => false
  | call name arguments => name == function || someCalls function arguments
  | not operand => operand.calls function
  | binary _ left right => left.calls function || right.calls function

def someCalls (function : String) : List Expr → Bool
  | [] => false
  | e :: es => e.calls function || someCalls function es

end

end Expr

namespace Expression

/-! ### Free names -/

def keywords : List String := ["true", "false", "null"]

theorem keyword?_eq_none_iff {name : String} : keyword? name = none ↔ name ∉ keywords := by
  unfold keyword? keywords
  grind

def opens : List Token → Bool
  | [] => false
  | t :: _ => t.kind == .punctuation && t.text == "("

def freeNames : List Token → List String
  | [] => []
  | t :: ts =>
    if t.kind = .name ∧ t.text ∉ keywords ∧ opens ts = false then t.text :: freeNames ts
    else freeNames ts

/-! ### Free names of tokens that are put together -/

section

variable {t : Token} {ts rest : List Token}

theorem freeNames_of_other (other : t.kind ≠ .name) : freeNames (t :: ts) = freeNames ts := by
  rw [freeNames, if_neg fun own => other own.1]

theorem freeNames_of_keyword (known : t.text ∈ keywords) :
    freeNames (t :: ts) = freeNames ts := by
  rw [freeNames, if_neg fun own => own.2.1 known]

theorem freeNames_of_function (called : opens ts = true) :
    freeNames (t :: ts) = freeNames ts := by
  rw [freeNames, if_neg fun own => by simp [called] at own]

theorem freeNames_append (ts : List Token) (apart : opens rest = false) :
    freeNames (ts ++ rest) = freeNames ts ++ freeNames rest := by
  induction ts with
  | nil => rfl
  | cons t ts ih =>
    have same : opens (ts ++ rest) = opens ts := by
      cases ts with
      | nil => exact apart
      | cons u ts => rfl
    rw [List.cons_append, freeNames, freeNames, same, ih]
    split
    · rfl
    · rfl

end

theorem freeNames_sign {text : String} (sign : Sign text) (ts : List Token) :
    freeNames (sign.1 :: ts) = freeNames ts :=
  freeNames_of_other (by simp [sign.2.1])

theorem freeNames_mark {text : String} (mark : Mark text) (ts : List Token) :
    freeNames (mark.1 :: ts) = freeNames ts :=
  freeNames_of_other (by simp [mark.2.1])

theorem opens_mark {text : String} (mark : Mark text) (ts : List Token) :
    opens (mark.1 :: ts) = (text == "(") := by
  simp [opens, mark.2.1, mark.2.2]

theorem freeNames_append_mark {text : String} (ts : List Token) (mark : Mark text)
    (other : text ≠ "(") (rest : List Token) :
    freeNames (ts ++ mark.1 :: rest) = freeNames ts ++ freeNames rest := by
  rw [freeNames_append ts (by rw [opens_mark]; exact beq_false_of_ne other), freeNames_mark]

/-! ### References of derivations -/

namespace Derivation

theorem opens_further {l : Layer} (d : Derivation (.further l)) : opens d.tokens = false := by
  cases d with
  | last => rfl
  | next op own sign right rest => simp [tokens, opens, sign.2.1]

/-- That the references of what a derivation means are the free names of its tokens. Further
operands add theirs to those of the expression before them. -/
def Refers : {s : Symbol} → Derivation s → Prop
  | .expression _, d => d.meaning.references = freeNames d.tokens
  | .further _, d =>
    ∀ left : Expr, (d.meaning left).references = left.references ++ freeNames d.tokens
  | .primary, d => d.meaning.references = freeNames d.tokens
  | .arguments, d => Expr.referencesOfAll d.meaning = freeNames d.tokens

theorem refers {s : Symbol} (d : Derivation s) : d.Refers := by
  induction d with
  | layer first rest first_refers rest_refers =>
    have left : first.meaning.references = freeNames first.tokens := first_refers
    show (rest.meaning first.meaning).references = freeNames (first.tokens ++ rest.tokens)
    rw [freeNames_append _ rest.opens_further, ← left]
    exact rest_refers first.meaning
  | last => exact fun left => (List.append_nil _).symm
  | next op own sign right rest right_refers rest_refers =>
    intro left
    have operand : right.meaning.references = freeNames right.tokens := right_refers
    have more := rest_refers (.binary op left right.meaning)
    rw [Expr.references, operand, List.append_assoc] at more
    rw [tokens, freeNames_sign, freeNames_append _ rest.opens_further]
    exact more
  | negation sign inner inner_refers =>
    show inner.meaning.references = freeNames (sign.1 :: inner.tokens)
    rw [freeNames_sign]
    exact inner_refers
  | plain inner inner_refers => exact inner_refers
  | group opening inner closing inner_refers =>
    show inner.meaning.references = freeNames (opening.1 :: (inner.tokens ++ [closing.1]))
    rw [freeNames_mark, freeNames_append_mark _ closing (by decide)]
    exact inner_refers.trans (List.append_nil _).symm
  | quoted t kind =>
    show [] = freeNames [t]
    rw [freeNames_of_other (by simp [kind])]
    rfl
  | number t kind =>
    show [] = freeNames [t]
    rw [freeNames_of_other (by simp [kind])]
    rfl
  | keyword t kind value known =>
    have own : t.text ∈ keywords := by
      by_contra free
      rw [keyword?_eq_none_iff.mpr free] at known
      cases known
    show [] = freeNames [t]
    rw [freeNames_of_keyword own]
    rfl
  | reference t kind free =>
    show [t.text] = freeNames [t]
    rw [freeNames, if_pos ⟨kind, keyword?_eq_none_iff.mp free, rfl⟩]
    rfl
  | bareCall t kind free undotted opening closing =>
    show [] = freeNames [t, opening.1, closing.1]
    rw [freeNames_of_function (opens_mark opening _), freeNames_mark, freeNames_mark]
    rfl
  | call t kind free undotted opening inner closing inner_refers =>
    show Expr.referencesOfAll inner.meaning =
      freeNames (t :: opening.1 :: (inner.tokens ++ [closing.1]))
    rw [freeNames_of_function (opens_mark opening _), freeNames_mark,
      freeNames_append_mark _ closing (by decide)]
    exact inner_refers.trans (List.append_nil _).symm
  | argument only only_refers => exact (List.append_nil _).trans only_refers
  | arguments first comma rest first_refers rest_refers =>
    have left : first.meaning.references = freeNames first.tokens := first_refers
    have others : Expr.referencesOfAll rest.meaning = freeNames rest.tokens := rest_refers
    show first.meaning.references ++ Expr.referencesOfAll rest.meaning =
      freeNames (first.tokens ++ comma.1 :: rest.tokens)
    rw [freeNames_append_mark _ comma (by decide), left, others]

end Derivation

/-! ### References of expressions -/

theorem exists_freeNames_of_parse {text : String} {e : Expr} (parsed : parse text = .ok e) :
    ∃ ts, tokenize text = .ok ts ∧ e.references = freeNames ts := by
  obtain ⟨d, tokens, rfl⟩ := exists_of_parse parsed
  exact ⟨d.tokens, tokens, d.refers⟩

theorem exists_of_mem_freeNames {ts : List Token} {name : String} (free : name ∈ freeNames ts) :
    ∃ t ∈ ts, t.kind = .name ∧ t.text = name := by
  induction ts with
  | nil => cases free
  | cons t ts ih =>
    have later (free : name ∈ freeNames ts) : ∃ u ∈ t :: ts, u.kind = .name ∧ u.text = name := by
      obtain ⟨u, member, own⟩ := ih free
      exact ⟨u, .tail t member, own⟩
    rw [freeNames] at free
    split at free
    · next own =>
      rcases List.mem_cons.mp free with rfl | free
      · exact ⟨t, List.mem_cons_self, own.1, rfl⟩
      · exact later free
    · exact later free

theorem references_of_parse {text : String} {e : Expr} (parsed : parse text = .ok e) :
    ∀ path ∈ e.references, IsPath path.toList := by
  intro path member
  obtain ⟨ts, tokens, same⟩ := exists_freeNames_of_parse parsed
  rw [same] at member
  obtain ⟨t, token, kind, rfl⟩ := exists_of_mem_freeNames member
  have word := worded_of_tokenize tokens t token
  rwa [kind] at word

/-- **References are the free names.** An expression that was parsed refers to what its free names
say, in their order and as often as they are written. So the check for missing outputs goes through
these names and no others. -/
theorem references_are_free_names {text : String} {e : Expr} (parsed : parse text = .ok e) :
    ∃ ts, tokenize text = .ok ts ∧ e.references = freeNames ts ∧
      ∀ context job, Condition.missing? context job e =
        (freeNames ts).findSome? (Condition.missingAt? context job) := by
  obtain ⟨ts, tokens, same⟩ := exists_freeNames_of_parse parsed
  refine ⟨ts, tokens, same, ?_⟩
  intro context job
  rw [Condition.missing?, same]

/-- A name that is written twice, one that is called, and a keyword. -/
def repeatedNames : String := "contains(a.b, 'c') && !(d == true) || a.b"

theorem references_are_free_names_repeated :
    ∃ e, parse repeatedNames = .ok e ∧ e.references = ["a.b", "d", "a.b"] := by
  obtain ⟨e, parsed⟩ := exists_of_accepted (s := repeatedNames) (by decide +kernel)
  obtain ⟨ts, tokens, same, -⟩ := references_are_free_names parsed
  refine ⟨e, parsed, same.trans ?_⟩
  have names : (tokenize repeatedNames).toOption.map freeNames = some ["a.b", "d", "a.b"] := by
    decide +kernel
  rw [tokens] at names
  exact Option.some.inj names

/-! ### Constants -/

theorem str_modest (s : String) : (Scalar.str s).Modest :=
  ⟨fun _ => rfl, fun _ same => nomatch same⟩

theorem keyword_modest {name : String} {constant : Scalar} (found : keyword? name = some constant) :
    constant.Modest := by
  unfold keyword? at found
  split at found
  · cases found
    exact ⟨fun _ => rfl, fun _ same => nomatch same⟩
  · cases found
    exact ⟨fun _ => rfl, fun _ same => nomatch same⟩
  · cases found
    exact ⟨fun _ => rfl, fun _ same => nomatch same⟩
  · cases found

theorem numberLiteral_modest (text : String) : (numberLiteral text).Modest := by
  have float (d : Double) : (Scalar.float d).Modest := ⟨fun _ => rfl, fun _ same => nomatch same⟩
  unfold numberLiteral
  have rounded : ((Numeral.double? text.toList).getD .nan).IsRounded := by
    cases read : Numeral.double? text.toList with
    | none => exact .nan
    | some d => exact Numeral.isRounded_of_double? read
  generalize (Numeral.double? text.toList).getD .nan = d at rounded
  dsimp only
  split
  · exact float d
  · split
    · next i integer =>
      constructor
      · intro u
        have short := Numeral.text?_of_lt_bound (Double.natAbs_lt_of_toInt? rounded integer)
        rw [Scalar.hasFlaw, Option.isNone_eq_false_iff.mpr short, Bool.and_false]
      · intro j same
        cases same
        exact Double.ofInt?_of_toInt? rounded integer
    · exact float d

namespace Derivation

def IsModest : {s : Symbol} → Derivation s → Prop
  | .expression _, d => d.meaning.Modest
  | .further _, d => ∀ left : Expr, left.Modest → (d.meaning left).Modest
  | .primary, d => d.meaning.Modest
  | .arguments, d => Expr.AllModest d.meaning

theorem isModest {s : Symbol} (d : Derivation s) : d.IsModest := by
  induction d with
  | layer first rest first_modest rest_modest => exact rest_modest first.meaning first_modest
  | last => exact fun left modest => modest
  | next op own sign right rest right_modest rest_modest =>
    intro left modest
    exact rest_modest _ ⟨modest, right_modest⟩
  | negation sign inner inner_modest => exact inner_modest
  | plain inner inner_modest => exact inner_modest
  | group opening inner closing inner_modest => exact inner_modest
  | quoted t kind => exact str_modest _
  | number t kind => exact numberLiteral_modest _
  | keyword t kind value known => exact keyword_modest known
  | reference t kind free => trivial
  | bareCall t kind free undotted opening closing => trivial
  | call t kind free undotted opening inner closing inner_modest => exact inner_modest
  | argument only only_modest => exact ⟨only_modest, trivial⟩
  | arguments first comma rest first_modest rest_modest => exact ⟨first_modest, rest_modest⟩

end Derivation

theorem parse_modest {text : String} {e : Expr} (parsed : parse text = .ok e) : e.Modest := by
  obtain ⟨d, -, rfl⟩ := exists_of_parse parsed
  exact d.isModest

end Expression
end Rehearsal
