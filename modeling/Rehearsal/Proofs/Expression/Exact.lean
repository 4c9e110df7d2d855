import Rehearsal.Proofs.Expression.Grammar
import Rehearsal.Proofs.Expression.Lexed
import Rehearsal.Proofs.Json.Parsed

/-! The parser reads exactly the derivations of the grammar. What it gives is the meaning of a
derivation of the tokens that it took (`parsesSoundly`), and it takes the tokens of every derivation
that ends there (`parsesFully`). So tokens of a text are parsed exactly if they have a derivation,
into its meaning, and are refused otherwise (`parseTokens_exact`). -/

namespace Rehearsal.Expression

/-! ### Tokens of a text -/

def Worded (ts : List Token) : Prop := ∀ t ∈ ts, t.kind.IsWord t.text.toList

theorem worded_of_tokenize {text : String} {ts : List Token} (tokens : tokenize text = .ok ts) :
    Worded ts := (tokenize_iff.mp tokens).isWord

theorem Worded.of_append {ts rest : List Token} (worded : Worded (ts ++ rest)) : Worded rest :=
  fun t member => worded t (List.mem_append_right ts member)

theorem Worded.tail {t : Token} {ts : List Token} (worded : Worded (t :: ts)) : Worded ts :=
  fun other member => worded other (.tail t member)

theorem exists_of_accept? {text : String} {ts rest : List Token}
    (accepted : accept? text ts = some rest) :
    ∃ t, ts = t :: rest ∧ (t.kind = .operator ∨ t.kind = .punctuation) ∧ t.text = text := by
  cases ts with
  | nil => cases accepted
  | cons t ts =>
    rw [accept?] at accepted
    split at accepted
    · next is =>
      cases accepted
      rw [Token.is, Bool.and_eq_true, Bool.or_eq_true, beq_iff_eq, beq_iff_eq, beq_iff_eq] at is
      exact ⟨t, rfl, is⟩
    · cases accepted

theorem signs_disjoint_marks : ∀ text ∈ signs, text ∉ marks := by decide

theorem exists_sign {text : String} (own : text ∈ signs) {ts rest : List Token}
    (worded : Worded ts) (accepted : accept? text ts = some rest) :
    ∃ sign : Sign text, ts = sign.1 :: rest := by
  obtain ⟨t, rfl, operator | punctuation, rfl⟩ := exists_of_accept? accepted
  · exact ⟨⟨t, operator, rfl⟩, rfl⟩
  · have word := worded t List.mem_cons_self
    rw [punctuation, TokenKind.IsWord, String.ofList_toList] at word
    exact absurd word (signs_disjoint_marks _ own)

theorem exists_mark {text : String} (own : text ∈ marks) {ts rest : List Token}
    (worded : Worded ts) (accepted : accept? text ts = some rest) :
    ∃ mark : Mark text, ts = mark.1 :: rest := by
  obtain ⟨t, rfl, operator | punctuation, rfl⟩ := exists_of_accept? accepted
  · have word := worded t List.mem_cons_self
    rw [operator, TokenKind.IsWord, String.ofList_toList] at word
    exact absurd own (signs_disjoint_marks _ word)
  · exact ⟨⟨t, punctuation, rfl⟩, rfl⟩

theorem exists_closing {ts rest : List Token} (worded : Worded ts)
    (closed : expect ")" ts = .ok rest) : ∃ closing : Mark ")", ts = closing.1 :: rest := by
  unfold expect at closed
  split at closed
  · next accepted =>
    cases closed
    exact exists_mark (by decide) worded accepted
  · cases closed

theorem exists_operator {ops : List Operator} {op : Operator} {ts rest : List Token}
    (worded : Worded ts) (accepted : acceptOperator? ops ts = some (op, rest)) :
    op ∈ ops ∧ ∃ sign : Sign op.text, ts = sign.1 :: rest := by
  obtain ⟨own, member, found⟩ := List.exists_of_findSome?_eq_some accepted
  obtain ⟨left, taken, same⟩ := Option.map_eq_some_iff.mp found
  cases same
  have known : op.text ∈ signs := by
    rcases op with - | - | - | - | (_ | _ | _ | _) <;> decide
  exact ⟨member, exists_sign known worded taken⟩

/-! ### What is read has a derivation -/

def Derives (s : Symbol) (ts : List Token)
    (reading : Except ParseError (s.Meaning × List Token)) : Prop :=
  ∀ e rest, reading = .ok (e, rest) → ∃ d : Derivation s, d.meaning = e ∧ ts = d.tokens ++ rest

/-- That the functions of the parser, given some fuel, read by the grammar. -/
structure ParsesSoundly (fuel : Nat) : Prop where
  operation : ∀ level ts, Worded ts →
    Derives (.expression level) ts (operation fuel level.layers ts)
  chain : ∀ l left ts, Worded ts → ∀ e rest,
    chain fuel l.operators l.operand.layers left ts = .ok (e, rest) →
      ∃ d : Derivation (.further l), d.meaning left = e ∧ ts = d.tokens ++ rest
  operand : ∀ ts, Worded ts → Derives (.expression .unary) ts (operand fuel ts)
  primary : ∀ ts, Worded ts → Derives .primary ts (primary fuel ts)
  arguments : ∀ ts, Worded ts → ∀ es rest, arguments fuel ts = .ok (es, rest) →
    ∃ (d : Derivation .arguments) (closing : Mark ")"),
      d.meaning = es ∧ ts = d.tokens ++ closing.1 :: rest

namespace ParsesSoundly

variable {fuel : Nat} (ih : ParsesSoundly fuel)
include ih

theorem operation_succ (level : Level) (ts : List Token) (worded : Worded ts) :
    Derives (.expression level) ts (Expression.operation (fuel + 1) level.layers ts) := by
  intro e rest read
  cases level with
  | unary => exact ih.operand ts worded e rest read
  | binary l =>
    rw [Level.layers_binary, Expression.operation] at read
    obtain ⟨⟨left, others⟩, first, later⟩ := bind_eq_ok read
    obtain ⟨d, rfl, rfl⟩ := ih.operation _ ts worded _ _ first
    obtain ⟨more, rfl, rfl⟩ := ih.chain l _ _ worded.of_append _ _ later
    exact ⟨.layer d more, rfl, (List.append_assoc ..).symm⟩

theorem chain_succ (l : Layer) (left : Expr) (ts : List Token) (worded : Worded ts) (e : Expr)
    (rest : List Token)
    (read : Expression.chain (fuel + 1) l.operators l.operand.layers left ts = .ok (e, rest)) :
    ∃ d : Derivation (.further l), d.meaning left = e ∧ ts = d.tokens ++ rest := by
  rw [Expression.chain] at read
  split at read
  · cases read
    exact ⟨.last, rfl, rfl⟩
  · next op others accepted =>
    obtain ⟨own, sign, rfl⟩ := exists_operator worded accepted
    obtain ⟨⟨right, others⟩, operand, later⟩ := bind_eq_ok read
    obtain ⟨d, rfl, rfl⟩ := ih.operation _ _ worded.tail _ _ operand
    obtain ⟨more, rfl, rfl⟩ := ih.chain l _ _ worded.tail.of_append _ _ later
    exact ⟨.next op own sign d more, rfl, by simp [Derivation.tokens]⟩

theorem operand_succ (ts : List Token) (worded : Worded ts) :
    Derives (.expression .unary) ts (Expression.operand (fuel + 1) ts) := by
  intro e rest read
  rw [Expression.operand] at read
  split at read
  · next accepted =>
    obtain ⟨sign, rfl⟩ := exists_sign (by decide) worded accepted
    obtain ⟨⟨inner, others⟩, operand, later⟩ := bind_eq_ok read
    cases later
    obtain ⟨d, rfl, rfl⟩ := ih.operand _ worded.tail _ _ operand
    exact ⟨.negation sign d, rfl, rfl⟩
  · obtain ⟨d, rfl, rfl⟩ := ih.primary _ worded _ _ read
    exact ⟨.plain d, rfl, rfl⟩

theorem primary_succ (ts : List Token) (worded : Worded ts) :
    Derives .primary ts (Expression.primary (fuel + 1) ts) := by
  intro e rest read
  cases ts with
  | nil => cases read
  | cons t ts =>
    rw [Expression.primary] at read
    split at read
    · next kind =>
      cases read
      exact ⟨.quoted t kind, rfl, rfl⟩
    · next kind =>
      cases read
      exact ⟨.number t kind, rfl, rfl⟩
    · next kind =>
      split at read
      · next constant known =>
        cases read
        exact ⟨.keyword t kind constant known, rfl, rfl⟩
      · next free =>
        split at read
        · cases read
          exact ⟨.reference t kind free, rfl, rfl⟩
        · next opened =>
          obtain ⟨opening, rfl⟩ := exists_mark (by decide) worded.tail opened
          split at read
          · cases read
          · next dotless =>
            have undotted : '.' ∉ t.text.toList := by simpa using dotless
            split at read
            · next closed =>
              obtain ⟨closing, rfl⟩ := exists_mark (by decide) worded.tail.tail closed
              cases read
              exact ⟨.bareCall t kind free undotted opening closing, rfl, rfl⟩
            · obtain ⟨⟨es, others⟩, inner, later⟩ := bind_eq_ok read
              cases later
              obtain ⟨d, closing, rfl, rfl⟩ := ih.arguments _ worded.tail.tail _ _ inner
              exact ⟨.call t kind free undotted opening d closing, rfl,
                by simp [Derivation.tokens]⟩
    · cases read
    · next kind =>
      split at read
      · next text =>
        obtain ⟨⟨inner, others⟩, operation, later⟩ := bind_eq_ok read
        obtain ⟨others, closed, last⟩ := bind_eq_ok later
        cases last
        obtain ⟨d, rfl, rfl⟩ := ih.operation (.binary .or) _ worded.tail _ _ operation
        obtain ⟨closing, rfl⟩ := exists_closing worded.tail.of_append closed
        exact ⟨.group ⟨t, kind, text⟩ d closing, rfl, by simp [Derivation.tokens]⟩
      · cases read

theorem arguments_succ (ts : List Token) (worded : Worded ts) (es : List Expr)
    (rest : List Token) (read : Expression.arguments (fuel + 1) ts = .ok (es, rest)) :
    ∃ (d : Derivation .arguments) (closing : Mark ")"),
      d.meaning = es ∧ ts = d.tokens ++ closing.1 :: rest := by
  rw [Expression.arguments] at read
  obtain ⟨⟨e, others⟩, operation, later⟩ := bind_eq_ok read
  obtain ⟨d, rfl, rfl⟩ := ih.operation (.binary .or) _ worded _ _ operation
  dsimp only at later
  split at later
  · next accepted =>
    obtain ⟨comma, rfl⟩ := exists_mark (by decide) worded.of_append accepted
    obtain ⟨⟨es, others⟩, more, last⟩ := bind_eq_ok later
    cases last
    obtain ⟨further, closing, rfl, rfl⟩ := ih.arguments _ worded.of_append.tail _ _ more
    exact ⟨.arguments d comma further, closing, rfl, by simp [Derivation.tokens]⟩
  · obtain ⟨others, closed, last⟩ := bind_eq_ok later
    cases last
    obtain ⟨closing, rfl⟩ := exists_closing worded.of_append closed
    exact ⟨.argument d, closing, rfl, rfl⟩

end ParsesSoundly

theorem parsesSoundly (fuel : Nat) : ParsesSoundly fuel := by
  induction fuel with
  | zero => constructor <;> nofun
  | succ fuel ih =>
    exact ⟨ih.operation_succ, ih.chain_succ, ih.operand_succ, ih.primary_succ, ih.arguments_succ⟩

/-! ### Derivations are read -/

theorem accept?_sign {text : String} (sign : Sign text) (rest : List Token) :
    accept? text (sign.1 :: rest) = some rest := by
  obtain ⟨t, kind, rfl⟩ := sign
  simp [accept?, Token.is, kind]

theorem accept?_mark {text : String} (mark : Mark text) (rest : List Token) :
    accept? text (mark.1 :: rest) = some rest := by
  obtain ⟨t, kind, rfl⟩ := mark
  simp [accept?, Token.is, kind]

theorem expect_mark {text : String} (mark : Mark text) (rest : List Token) :
    expect text (mark.1 :: rest) = .ok rest := by
  rw [expect, accept?_mark]

theorem accept?_sign_eq_none {text : String} (own : text ∈ signs) {ts : List Token}
    (worded : Worded ts) (other : ∀ t ∈ ts.head?, ¬(t.kind = .operator ∧ t.text = text)) :
    accept? text ts = none := by
  cases taken : accept? text ts with
  | none => rfl
  | some rest =>
    obtain ⟨sign, rfl⟩ := exists_sign own worded taken
    exact absurd sign.2 (other _ rfl)

theorem accept?_mark_eq_none {text : String} (own : text ∈ marks) {ts : List Token}
    (worded : Worded ts) (other : ∀ t ∈ ts.head?, ¬(t.kind = .punctuation ∧ t.text = text)) :
    accept? text ts = none := by
  cases taken : accept? text ts with
  | none => rfl
  | some rest =>
    obtain ⟨mark, rfl⟩ := exists_mark own worded taken
    exact absurd mark.2 (other _ rfl)

theorem acceptOperator?_sign {l : Layer} {op : Operator} (own : op ∈ l.operators)
    (sign : Sign op.text) {rest : List Token} (worded : Worded (sign.1 :: rest)) :
    acceptOperator? l.operators (sign.1 :: rest) = some (op, rest) := by
  cases taken : acceptOperator? l.operators (sign.1 :: rest) with
  | none =>
    have none := List.findSome?_eq_none_iff.mp taken op own
    rw [accept?_sign] at none
    cases none
  | some pair =>
    obtain ⟨other, others⟩ := pair
    obtain ⟨-, sign', same⟩ := exists_operator worded taken
    obtain ⟨first, rfl⟩ := List.cons.inj same
    obtain rfl : op = other := Operator.text_injective (by rw [← sign.2.2, first, sign'.2.2])
    rfl

theorem acceptOperator?_eq_none {l : Layer} {rest : List Token} (worded : Worded rest)
    (ends : Ends (.binary l) rest) : acceptOperator? l.operators rest = none := by
  cases taken : acceptOperator? l.operators rest with
  | none => rfl
  | some pair =>
    obtain ⟨op, others⟩ := pair
    obtain ⟨own, sign, rfl⟩ := exists_operator worded taken
    exact (Derivation.not_next own sign ends).elim

namespace Derivation

theorem length_tokens_pos {s : Symbol} (d : Derivation s) (solid : s.IsSolid) :
    0 < d.tokens.length := by
  obtain ⟨t, ts, same, -⟩ := d.exists_tokens solid
  rw [same]
  exact Nat.succ_pos _

def IsParsed : {s : Symbol} → Derivation s → Prop
  | .expression level, d => ∀ fuel rest, Worded (d.tokens ++ rest) → Ends level rest →
      8 * d.tokens.length + level.layers.length ≤ fuel + 5 →
        operation fuel level.layers (d.tokens ++ rest) = .ok (d.meaning, rest)
  | .further l, d => ∀ fuel left rest, Worded (d.tokens ++ rest) → Ends (.binary l) rest →
      8 * d.tokens.length + 1 ≤ fuel →
        chain fuel l.operators l.operand.layers left (d.tokens ++ rest) =
          .ok (d.meaning left, rest)
  | .primary, d => ∀ fuel rest, Worded (d.tokens ++ rest) → Ends .unary rest →
      8 * d.tokens.length ≤ fuel + 7 → primary fuel (d.tokens ++ rest) = .ok (d.meaning, rest)
  | .arguments, d => ∀ fuel (closing : Mark ")") rest, Worded (d.tokens ++ closing.1 :: rest) →
      8 * (d.tokens.length + 1) ≤ fuel →
        Expression.arguments fuel (d.tokens ++ closing.1 :: rest) = .ok (d.meaning, rest)

theorem isParsed_of_token {d : Derivation .primary} {t : Token} (own : d.tokens = [t])
    (read : ∀ fuel rest, Worded rest → Ends .unary rest →
      primary (fuel + 1) (t :: rest) = .ok (d.meaning, rest)) : d.IsParsed := by
  intro fuel rest worded ends enough
  rw [own] at worded enough ⊢
  rw [List.length_singleton] at enough
  obtain ⟨fuel, rfl⟩ : ∃ k, fuel = k + 1 := ⟨fuel - 1, by omega⟩
  exact read fuel rest worded.tail ends

theorem isParsed {s : Symbol} (d : Derivation s) : d.IsParsed := by
  induction d with
  | @layer l first more first_parsed more_parsed =>
    intro fuel rest worded ends enough
    have some := first.length_tokens_pos trivial
    rw [Level.layers_binary] at enough ⊢
    simp only [tokens, List.append_assoc, List.length_append, List.length_cons] at worded enough ⊢
    obtain ⟨fuel, rfl⟩ : ∃ k, fuel = k + 1 := ⟨fuel - 1, by omega⟩
    rw [operation, first_parsed fuel _ worded (.further more ends) (by omega)]
    exact more_parsed fuel _ rest worded.of_append ends (by omega)
  | last =>
    intro fuel left rest worded ends enough
    obtain ⟨fuel, rfl⟩ : ∃ k, fuel = k + 1 := ⟨fuel - 1, by omega⟩
    rw [tokens, List.nil_append] at worded ⊢
    rw [chain, acceptOperator?_eq_none worded ends]
    rfl
  | @next l op own sign right more right_parsed more_parsed =>
    intro fuel left rest worded ends enough
    have short : l.operand.layers.length ≤ 3 := by cases l <;> decide
    simp only [tokens, List.cons_append, List.append_assoc, List.length_append,
      List.length_cons] at worded enough ⊢
    obtain ⟨fuel, rfl⟩ : ∃ k, fuel = k + 1 := ⟨fuel - 1, by omega⟩
    rw [chain, acceptOperator?_sign own sign worded]
    dsimp only
    rw [right_parsed fuel _ worded.tail (.further more ends) (by omega)]
    exact more_parsed fuel _ rest worded.tail.of_append ends (by omega)
  | negation sign inner inner_parsed =>
    intro fuel rest worded ends enough
    simp only [tokens, List.cons_append, List.length_cons, Level.layers, List.length_nil]
      at worded enough ⊢
    obtain ⟨fuel, rfl⟩ : ∃ k, fuel = k + 2 := ⟨fuel - 2, by omega⟩
    have read : operand fuel (inner.tokens ++ rest) = .ok (inner.meaning, rest) :=
      inner_parsed (fuel + 1) rest worded.tail ends
        (by simp only [Level.layers, List.length_nil]; omega)
    rw [operation, operand, accept?_sign]
    dsimp only
    rw [read]
    rfl
  | plain inner inner_parsed =>
    intro fuel rest worded ends enough
    have some := inner.length_tokens_pos trivial
    simp only [tokens, Level.layers, List.length_nil] at worded enough ⊢
    obtain ⟨fuel, rfl⟩ : ∃ k, fuel = k + 2 := ⟨fuel - 2, by omega⟩
    have unsigned : accept? "!" (inner.tokens ++ rest) = none := by
      refine accept?_sign_eq_none (by decide) worded ?_
      obtain ⟨t, ts, begins, other, -⟩ := inner.exists_tokens_primary
      rw [begins]
      rintro _ ⟨⟩ ⟨operator, -⟩
      exact other operator
    rw [operation, operand, unsigned]
    exact inner_parsed fuel rest worded ends (by omega)
  | group opening inner closing inner_parsed =>
    intro fuel rest worded ends enough
    have bound : (Level.binary .or).layers.length = 4 := rfl
    simp only [tokens, List.cons_append, List.append_assoc, List.nil_append, List.length_append,
      List.length_cons, List.length_nil] at worded enough ⊢
    obtain ⟨fuel, rfl⟩ : ∃ k, fuel = k + 1 := ⟨fuel - 1, by omega⟩
    have read : operation fuel Operator.levels (inner.tokens ++ closing.1 :: rest) =
        .ok (inner.meaning, closing.1 :: rest) :=
      inner_parsed fuel _ worded.tail (.mark _ closing (by decide) rest) (by omega)
    simp only [primary, opening.2.1, opening.2.2, if_true, read, bind, Except.bind, expect_mark]
    rfl
  | quoted t kind =>
    refine isParsed_of_token rfl fun fuel rest _ _ => ?_
    simp only [primary, kind]
    rfl
  | number t kind =>
    refine isParsed_of_token rfl fun fuel rest _ _ => ?_
    simp only [primary, kind]
    rfl
  | keyword t kind value known =>
    refine isParsed_of_token rfl fun fuel rest _ _ => ?_
    simp only [primary, kind, known]
    rfl
  | reference t kind free =>
    refine isParsed_of_token rfl fun fuel rest worded ends => ?_
    have uncalled := accept?_mark_eq_none (by decide) worded ends.uncalled
    simp only [primary, kind, free, uncalled]
    rfl
  | bareCall t kind free undotted opening closing =>
    intro fuel rest worded ends enough
    simp only [tokens, List.length_cons, List.length_nil] at enough
    obtain ⟨fuel, rfl⟩ : ∃ k, fuel = k + 1 := ⟨fuel - 1, by omega⟩
    have dotless : t.text.toList.contains '.' = false := by simpa using undotted
    simp only [tokens, List.cons_append, List.nil_append, primary, kind, free, accept?_mark,
      dotless, Bool.false_eq_true, if_false]
    rfl
  | call t kind free undotted opening inner closing inner_parsed =>
    intro fuel rest worded ends enough
    simp only [tokens, List.cons_append, List.append_assoc, List.nil_append, List.length_append,
      List.length_cons, List.length_nil] at worded enough ⊢
    obtain ⟨fuel, rfl⟩ : ∃ k, fuel = k + 1 := ⟨fuel - 1, by omega⟩
    have dotless : t.text.toList.contains '.' = false := by simpa using undotted
    have some : accept? ")" (inner.tokens ++ closing.1 :: rest) = none := by
      refine accept?_mark_eq_none (by decide) worded.tail.tail ?_
      obtain ⟨u, us, begins, other⟩ := inner.exists_tokens trivial
      rw [begins]
      rintro _ ⟨⟩
      exact other
    have read := inner_parsed fuel closing rest worded.tail.tail (by omega)
    simp only [primary, kind, free, accept?_mark, dotless, Bool.false_eq_true, if_false, some,
      read, bind, Except.bind]
    rfl
  | argument only only_parsed =>
    intro fuel closing rest worded enough
    have bound : (Level.binary .or).layers.length = 4 := rfl
    simp only [tokens] at worded enough ⊢
    obtain ⟨fuel, rfl⟩ : ∃ k, fuel = k + 1 := ⟨fuel - 1, by omega⟩
    have read : operation fuel Operator.levels (only.tokens ++ closing.1 :: rest) =
        .ok (only.meaning, closing.1 :: rest) :=
      only_parsed fuel _ worded (.mark _ closing (by decide) rest) (by omega)
    have last : accept? "," (closing.1 :: rest) = none := by
      refine accept?_mark_eq_none (by decide) worded.of_append ?_
      exact (Symbol.Ends.closing closing rest).2
    simp only [Expression.arguments, read, bind, Except.bind, last, expect_mark]
    rfl
  | arguments first comma more first_parsed more_parsed =>
    intro fuel closing rest worded enough
    have bound : (Level.binary .or).layers.length = 4 := rfl
    simp only [tokens, List.cons_append, List.append_assoc, List.length_append,
      List.length_cons] at worded enough ⊢
    obtain ⟨fuel, rfl⟩ : ∃ k, fuel = k + 1 := ⟨fuel - 1, by omega⟩
    have read : operation fuel Operator.levels
        (first.tokens ++ comma.1 :: (more.tokens ++ closing.1 :: rest)) =
          .ok (first.meaning, comma.1 :: (more.tokens ++ closing.1 :: rest)) :=
      first_parsed fuel _ worded (.mark _ comma (by decide) _) (by omega)
    have others := more_parsed fuel closing rest worded.of_append.tail (by omega)
    simp only [Expression.arguments, read, bind, Except.bind, accept?_mark, others]
    rfl

end Derivation

/-! ### Tokens are parsed by the grammar -/

/-- A whole expression. -/
abbrev Whole := Derivation (.expression (.binary .or))

theorem parseTokens_eq_ok_iff {ts : List Token} (worded : Worded ts) (e : Expr) :
    parseTokens ts = .ok e ↔ ∃ d : Whole, d.tokens = ts ∧ d.meaning = e := by
  constructor
  · intro parsed
    unfold parseTokens at parsed
    split at parsed
    · cases parsed
    · obtain ⟨⟨found, rest⟩, read, later⟩ := bind_eq_ok parsed
      obtain ⟨d, rfl, rfl⟩ := (parsesSoundly _).operation (.binary .or) ts worded _ _ read
      cases rest with
      | nil =>
        cases later
        exact ⟨d, (List.append_nil _).symm, rfl⟩
      | cons t rest => cases later
  · rintro ⟨d, rfl, rfl⟩
    have some := d.length_tokens_pos trivial
    have nonempty : d.tokens.isEmpty = false := by
      rw [List.isEmpty_eq_false_iff]
      exact List.ne_nil_of_length_pos some
    have read : operation (enoughFuel d.tokens.length) Operator.levels (d.tokens ++ []) =
        .ok (d.meaning, []) := by
      refine d.isParsed _ [] (by rwa [List.append_nil]) (.nil _) ?_
      have bound : (Level.binary .or).layers.length = 4 := rfl
      unfold enoughFuel
      omega
    rw [List.append_nil] at read
    unfold parseTokens
    rw [nonempty, read]
    rfl

theorem exists_of_parse {text : String} {e : Expr} (parsed : parse text = .ok e) :
    ∃ d : Whole, tokenize text = .ok d.tokens ∧ d.meaning = e := by
  obtain ⟨ts, tokens, read⟩ := bind_eq_ok parsed
  obtain ⟨d, rfl, same⟩ := (parseTokens_eq_ok_iff (worded_of_tokenize tokens) e).mp read
  exact ⟨d, tokens, same⟩

def Derivation.whole (primary : Derivation .primary) : Whole :=
  .layer (.layer (.layer (.layer (.plain primary) .last) .last) .last) .last

theorem parse_of_primary {text : String} {d : Derivation .primary}
    (tokens : tokenize text = .ok d.tokens) : parse text = .ok d.meaning := by
  have own : d.whole.tokens = d.tokens := by simp [Derivation.whole, Derivation.tokens]
  have parsed := (parseTokens_eq_ok_iff (worded_of_tokenize tokens) _).mpr ⟨d.whole, own, rfl⟩
  rw [parse, tokens]
  exact parsed

theorem exists_of_accepted {s : String} (read : (parse s).toOption.isSome = true) :
    ∃ e, parse s = .ok e := by
  cases accepted : parse s with
  | ok e => exact ⟨e, rfl⟩
  | error refusal =>
    rw [accepted] at read
    cases read

/-- The tokens of a text are parsed into an expression exactly if they are those of a derivation
with that meaning, of which there is at most one. All other tokens are refused. No numeral stands
in the way, since each has a value. -/
theorem parseTokens_exact {text : String} {ts : List Token} (tokens : tokenize text = .ok ts) :
    (∀ e, parseTokens ts = .ok e ↔ ∃ d : Whole, d.tokens = ts ∧ d.meaning = e) ∧
    (∀ d other : Whole, d.tokens = ts → other.tokens = ts → d = other) ∧
    ((¬∃ d : Whole, d.tokens = ts) → ∃ refusal, parseTokens ts = .error refusal) ∧
    ∀ t ∈ ts, t.kind = .number → (Numeral.double? t.text.toList).isSome = true := by
  have worded := worded_of_tokenize tokens
  refine ⟨parseTokens_eq_ok_iff worded, ?_, ?_, ?_⟩
  · rintro d other rfl same
    exact Derivation.eq_of_tokens_eq same.symm
  · intro underived
    cases parsed : parseTokens ts with
    | error refusal => exact ⟨refusal, rfl⟩
    | ok e =>
      obtain ⟨d, same, -⟩ := (parseTokens_eq_ok_iff worded e).mp parsed
      exact absurd ⟨d, same⟩ underived
  · intro t member number
    have word := worded t member
    rw [number] at word
    exact Numeral.double?_of_isPlain word

def comparedTwice : List Token :=
  [⟨.name, "a", 0⟩, ⟨.operator, "==", 2⟩, ⟨.name, "b", 5⟩, ⟨.operator, "!=", 7⟩, ⟨.name, "c", 10⟩]

theorem parseTokens_exact_compared_twice :
    tokenize "a == b != c" = .ok comparedTwice ∧
      ∃ d : Whole, d.tokens = comparedTwice ∧
        d.meaning = .binary .ne (.binary .eq (.reference "a") (.reference "b")) (.reference "c") :=
  have tokens : tokenize "a == b != c" = .ok comparedTwice := rfl
  ⟨tokens, ((parseTokens_exact tokens).1 _).mp rfl⟩

end Rehearsal.Expression
