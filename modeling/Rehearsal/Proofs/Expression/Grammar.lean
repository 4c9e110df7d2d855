import Rehearsal.Expression.Parser

/-! or := and ('||' and)* and := equality ('&&' equality)* equality := comparison (('==' | '!=')
comparison)* comparison := unary (('<' | '<=' | '>' | '>=') unary)* unary := '!' unary | primary
primary := '(' or ')' | quoted | number | keyword | name | call call := name '(' [or (',' or)*] ')'

A name is no keyword, and the name of a function has no dot. A `Derivation` is a tree of this
grammar, with the `tokens` it spans and the expression it means; operators of one layer associate to
the left. No tokens have two derivations (`Derivation.eq_of_tokens_eq`). -/

namespace Rehearsal.Expression

/-- The layers of operations, from the loosest to the tightest. -/
inductive Layer where
  | or
  | and
  | equality
  | comparison

/-- What can stand as an operand: an operation of a layer, or a unary expression. -/
inductive Level where
  | binary (l : Layer)
  | unary

namespace Layer

def operators : Layer → List Operator
  | or => [.or]
  | and => [.and]
  | equality => [.eq, .ne]
  | comparison => [.order .lt, .order .le, .order .gt, .order .ge]

def operand : Layer → Level
  | or => .binary .and
  | and => .binary .equality
  | equality => .binary .comparison
  | comparison => .unary

end Layer

/-- What tokens are read as. -/
inductive Symbol where
  | expression (level : Level)
  /-- The operands of a layer after the first one, each with an operator before it. -/
  | further (l : Layer)
  | primary
  | arguments

/-- What a symbol stands for; the further operands of a layer extend the expression before them. -/
abbrev Symbol.Meaning : Symbol → Type
  | expression _ => Expr
  | further _ => Expr → Expr
  | primary => Expr
  | arguments => List Expr

/-- A token of an operator. -/
abbrev Sign (text : String) := { t : Token // t.kind = .operator ∧ t.text = text }

/-- A token of punctuation. -/
abbrev Mark (text : String) := { t : Token // t.kind = .punctuation ∧ t.text = text }

/-- The derivations of the grammar, with a constructor for each rule. -/
inductive Derivation : Symbol → Type
  | layer {l : Layer} (first : Derivation (.expression l.operand))
      (rest : Derivation (.further l)) : Derivation (.expression (.binary l))
  | last {l : Layer} : Derivation (.further l)
  | next {l : Layer} (op : Operator) (own : op ∈ l.operators) (sign : Sign op.text)
      (right : Derivation (.expression l.operand)) (rest : Derivation (.further l)) :
      Derivation (.further l)
  | negation (sign : Sign "!") (inner : Derivation (.expression .unary)) :
      Derivation (.expression .unary)
  | plain (inner : Derivation .primary) : Derivation (.expression .unary)
  | group (opening : Mark "(") (inner : Derivation (.expression (.binary .or)))
      (closing : Mark ")") : Derivation .primary
  | quoted (t : Token) (kind : t.kind = .quoted) : Derivation .primary
  | number (t : Token) (kind : t.kind = .number) : Derivation .primary
  | keyword (t : Token) (kind : t.kind = .name) (value : Scalar)
      (known : keyword? t.text = some value) : Derivation .primary
  | reference (t : Token) (kind : t.kind = .name) (free : keyword? t.text = none) :
      Derivation .primary
  | bareCall (t : Token) (kind : t.kind = .name) (free : keyword? t.text = none)
      (undotted : '.' ∉ t.text.toList) (opening : Mark "(") (closing : Mark ")") :
      Derivation .primary
  | call (t : Token) (kind : t.kind = .name) (free : keyword? t.text = none)
      (undotted : '.' ∉ t.text.toList) (opening : Mark "(") (inner : Derivation .arguments)
      (closing : Mark ")") : Derivation .primary
  | argument (only : Derivation (.expression (.binary .or))) : Derivation .arguments
  | arguments (first : Derivation (.expression (.binary .or))) (comma : Mark ",")
      (rest : Derivation .arguments) : Derivation .arguments

namespace Derivation

def tokens {s : Symbol} : Derivation s → List Token
  | layer first rest => first.tokens ++ rest.tokens
  | last => []
  | next _ _ sign right rest => sign.1 :: (right.tokens ++ rest.tokens)
  | negation sign inner => sign.1 :: inner.tokens
  | plain inner => inner.tokens
  | group opening inner closing => opening.1 :: (inner.tokens ++ [closing.1])
  | quoted t _ => [t]
  | number t _ => [t]
  | keyword t _ _ _ => [t]
  | reference t _ _ => [t]
  | bareCall t _ _ _ opening closing => [t, opening.1, closing.1]
  | call t _ _ _ opening inner closing => t :: opening.1 :: (inner.tokens ++ [closing.1])
  | argument only => only.tokens
  | arguments first comma rest => first.tokens ++ comma.1 :: rest.tokens

/-- What a derivation stands for. -/
def meaning : {s : Symbol} → Derivation s → s.Meaning
  | _, layer first rest => rest.meaning first.meaning
  | _, last => id
  | _, next op _ _ right rest => fun left => rest.meaning (.binary op left right.meaning)
  | _, negation _ inner => .not inner.meaning
  | _, plain inner => inner.meaning
  | _, group _ inner _ => inner.meaning
  | _, quoted t _ => .literal (.str (String.ofList (Quoted.unquote t.text.toList)))
  | _, number t _ => .literal (numberLiteral t.text)
  | _, keyword _ _ value _ => .literal value
  | _, reference t _ _ => .reference t.text
  | _, bareCall t _ _ _ _ _ => .call t.text []
  | _, call t _ _ _ _ inner _ => .call t.text inner.meaning
  | _, argument only => [only.meaning]
  | _, arguments first _ rest => first.meaning :: rest.meaning

end Derivation

/-! ### Where readings end -/

/-- The operators of a level and of the tighter ones, layer by layer. -/
def Level.layers : Level → List (List Operator)
  | binary .or => [[.or], [.and], [.eq, .ne], [.order .lt, .order .le, .order .gt, .order .ge]]
  | binary .and => [[.and], [.eq, .ne], [.order .lt, .order .le, .order .gt, .order .ge]]
  | binary .equality => [[.eq, .ne], [.order .lt, .order .le, .order .gt, .order .ge]]
  | binary .comparison => [[.order .lt, .order .le, .order .gt, .order .ge]]
  | unary => []

theorem Level.layers_binary (l : Layer) :
    (binary l).layers = l.operators :: l.operand.layers := by
  cases l <;> rfl

theorem Layer.disjoint_operand (l : Layer) {op : Operator} (own : op ∈ l.operators) :
    op ∉ l.operand.layers.flatten := by
  revert op
  cases l <;> decide

theorem Operator.text_injective {op other : Operator} (same : op.text = other.text) :
    op = other := by
  revert same
  rcases op with - | - | - | - | (_ | _ | _ | _) <;>
    rcases other with - | - | - | - | (_ | _ | _ | _) <;> decide

/-- That tokens neither go on with an expression of a level nor make a call of it. -/
structure Ends (level : Level) (rest : List Token) : Prop where
  uncalled : ∀ t ∈ rest.head?, ¬(t.kind = .punctuation ∧ t.text = "(")
  complete : ∀ op ∈ level.layers.flatten, ∀ t ∈ rest.head?,
    ¬(t.kind = .operator ∧ t.text = op.text)

/-- What can stand after what is read as a symbol, so that it ends there. -/
def Symbol.Ends : Symbol → List Token → Prop
  | expression level, rest => Expression.Ends level rest
  | further l, rest => Expression.Ends (.binary l) rest
  | primary, rest => Expression.Ends .unary rest
  | arguments, rest => Expression.Ends (.binary .or) rest ∧
      ∀ t ∈ rest.head?, ¬(t.kind = .punctuation ∧ t.text = ",")

namespace Ends

theorem nil (level : Level) : Ends level [] := ⟨nofun, nofun⟩

theorem mark (level : Level) {text : String} (mark : Mark text) (other : text ≠ "(")
    (rest : List Token) : Ends level (mark.1 :: rest) := by
  obtain ⟨t, kind, rfl⟩ := mark
  constructor
  · rintro _ ⟨⟩ ⟨-, opening⟩
    exact other opening
  · rintro op - _ ⟨⟩ ⟨sign, -⟩
    rw [kind] at sign
    cases sign

theorem operand {l : Layer} {rest : List Token} (ends : Ends (.binary l) rest) :
    Ends l.operand rest := by
  refine ⟨ends.uncalled, fun op member => ends.complete op ?_⟩
  rw [Level.layers_binary, List.flatten_cons]
  exact List.mem_append_right _ member

theorem further {l : Layer} (more : Derivation (.further l)) {rest : List Token}
    (ends : Ends (.binary l) rest) : Ends l.operand (more.tokens ++ rest) := by
  cases more with
  | last => exact ends.operand
  | next op own sign right others =>
    obtain ⟨t, kind, text⟩ := sign
    constructor
    · rintro _ ⟨⟩ ⟨mark, -⟩
      rw [kind] at mark
      cases mark
    · rintro other member _ ⟨⟩ ⟨-, same⟩
      obtain rfl := Operator.text_injective (text.symm.trans same)
      exact l.disjoint_operand own member

end Ends

theorem Symbol.Ends.closing (closing : Mark ")") (rest : List Token) :
    arguments.Ends (closing.1 :: rest) := by
  refine ⟨.mark _ closing (by decide) rest, ?_⟩
  rintro _ ⟨⟩ ⟨-, comma⟩
  exact absurd (closing.2.2.symm.trans comma) (by decide)

/-! ### How readings begin -/

theorem Derivation.exists_tokens_primary (d : Derivation .primary) :
    ∃ t ts, d.tokens = t :: ts ∧ t.kind ≠ .operator ∧ ¬(t.kind = .punctuation ∧ t.text = ")") := by
  cases d with
  | group opening inner closing =>
    obtain ⟨t, kind, text⟩ := opening
    refine ⟨t, _, rfl, ?_, ?_⟩
    · simp [kind]
    · simp [text]
  | quoted t kind => exact ⟨t, _, rfl, by simp [kind], by simp [kind]⟩
  | number t kind => exact ⟨t, _, rfl, by simp [kind], by simp [kind]⟩
  | keyword t kind => exact ⟨t, _, rfl, by simp [kind], by simp [kind]⟩
  | reference t kind => exact ⟨t, _, rfl, by simp [kind], by simp [kind]⟩
  | bareCall t kind => exact ⟨t, _, rfl, by simp [kind], by simp [kind]⟩
  | call t kind => exact ⟨t, _, rfl, by simp [kind], by simp [kind]⟩

def Symbol.IsSolid : Symbol → Prop
  | further _ => False
  | _ => True

theorem Derivation.exists_tokens {s : Symbol} (d : Derivation s) (solid : s.IsSolid) :
    ∃ t ts, d.tokens = t :: ts ∧ ¬(t.kind = .punctuation ∧ t.text = ")") := by
  have primary (d : Derivation .primary) :
      ∃ t ts, d.tokens = t :: ts ∧ ¬(t.kind = .punctuation ∧ t.text = ")") := by
    obtain ⟨t, ts, same, -, other⟩ := d.exists_tokens_primary
    exact ⟨t, ts, same, other⟩
  induction d with
  | layer first rest ih =>
    obtain ⟨t, ts, same, other⟩ := ih trivial
    exact ⟨t, ts ++ rest.tokens, by rw [tokens, same, List.cons_append], other⟩
  | last => exact solid.elim
  | next => exact solid.elim
  | negation sign inner =>
    obtain ⟨t, kind, text⟩ := sign
    exact ⟨t, inner.tokens, rfl, by simp [kind]⟩
  | plain inner => exact primary inner
  | argument only ih => exact ih trivial
  | arguments first comma rest ih =>
    obtain ⟨t, ts, same, other⟩ := ih trivial
    exact ⟨t, ts ++ comma.1 :: rest.tokens, by rw [tokens, same, List.cons_append], other⟩
  | _ => exact primary _

/-! ### Derivations are unique -/

namespace Derivation

def Unique {s : Symbol} (d : Derivation s) : Prop :=
  ∀ (other : Derivation s) (rest others : List Token), s.Ends rest → s.Ends others →
    d.tokens ++ rest = other.tokens ++ others → d = other ∧ rest = others

theorem not_next {l : Layer} {op : Operator} (own : op ∈ l.operators) (sign : Sign op.text)
    {rest : List Token} (ends : Expression.Ends (.binary l) (sign.1 :: rest)) : False := by
  refine ends.complete op ?_ sign.1 rfl sign.2
  rw [Level.layers_binary, List.flatten_cons]
  exact List.mem_append_left _ own

theorem unique {s : Symbol} (d : Derivation s) : d.Unique := by
  induction d with
  | layer first more first_unique more_unique =>
    rintro ⟨first', more'⟩ rest others ends ends' same
    simp only [tokens, List.append_assoc] at same
    obtain ⟨rfl, later⟩ := first_unique first' _ _ (.further more ends) (.further more' ends') same
    obtain ⟨rfl, rfl⟩ := more_unique more' _ _ ends ends' later
    exact ⟨rfl, rfl⟩
  | last =>
    intro other rest others ends ends' same
    cases other with
    | last => exact ⟨rfl, same⟩
    | next op own sign right more =>
      obtain rfl : rest = _ := same
      exact (not_next own sign ends).elim
  | next op own sign right more right_unique more_unique =>
    intro other rest others ends ends' same
    cases other with
    | last =>
      obtain rfl : _ = others := same
      exact (not_next own sign ends').elim
    | next op' own' sign' right' more' =>
      simp only [tokens, List.cons_append, List.append_assoc, List.cons.injEq] at same
      obtain ⟨first, following⟩ := same
      obtain rfl : op = op' := Operator.text_injective (by rw [← sign.2.2, first, sign'.2.2])
      obtain rfl : sign = sign' := Subtype.ext first
      obtain ⟨rfl, later⟩ :=
        right_unique right' _ _ (.further more ends) (.further more' ends') following
      obtain ⟨rfl, rfl⟩ := more_unique more' _ _ ends ends' later
      exact ⟨rfl, rfl⟩
  | negation sign inner inner_unique =>
    intro other rest others ends ends' same
    cases other with
    | negation sign' inner' =>
      simp only [tokens, List.cons_append, List.cons.injEq] at same
      obtain ⟨first, following⟩ := same
      obtain rfl : sign = sign' := Subtype.ext first
      obtain ⟨rfl, rfl⟩ := inner_unique inner' _ _ ends ends' following
      exact ⟨rfl, rfl⟩
    | plain inner' =>
      obtain ⟨t, ts, begins, operand, -⟩ := inner'.exists_tokens_primary
      rw [tokens, tokens, begins] at same
      obtain ⟨rfl, -⟩ := List.cons.inj same
      exact absurd sign.2.1 operand
  | plain inner inner_unique =>
    intro other rest others ends ends' same
    cases other with
    | negation sign' inner' =>
      obtain ⟨t, ts, begins, operand, -⟩ := inner.exists_tokens_primary
      rw [tokens, tokens, begins] at same
      obtain ⟨rfl, -⟩ := List.cons.inj same
      exact absurd sign'.2.1 operand
    | plain inner' =>
      obtain ⟨rfl, rfl⟩ := inner_unique inner' _ _ ends ends' same
      exact ⟨rfl, rfl⟩
  | group opening inner closing inner_unique =>
    intro other rest others ends ends' same
    cases other with
    | group opening' inner' closing' =>
      simp only [tokens, List.cons_append, List.append_assoc, List.cons.injEq] at same
      obtain ⟨first, following⟩ := same
      obtain rfl : opening = opening' := Subtype.ext first
      obtain ⟨rfl, later⟩ := inner_unique inner' _ _ (.mark _ closing (by decide) _)
        (.mark _ closing' (by decide) _) following
      obtain ⟨last, rfl⟩ := List.cons.inj later
      obtain rfl : closing = closing' := Subtype.ext last
      exact ⟨rfl, rfl⟩
    | _ => grind [tokens]
  | quoted t kind =>
    intro other rest others ends ends' same
    cases other with
    | quoted t' kind' =>
      obtain ⟨rfl, rfl⟩ := List.cons.inj same
      exact ⟨rfl, rfl⟩
    | _ => grind [tokens]
  | number t kind =>
    intro other rest others ends ends' same
    cases other with
    | number t' kind' =>
      obtain ⟨rfl, rfl⟩ := List.cons.inj same
      exact ⟨rfl, rfl⟩
    | _ => grind [tokens]
  | keyword t kind value known =>
    intro other rest others ends ends' same
    cases other with
    | keyword t' kind' value' known' =>
      obtain ⟨rfl, rfl⟩ := List.cons.inj same
      obtain rfl := Option.some.inj (known.symm.trans known')
      exact ⟨rfl, rfl⟩
    | _ => grind [tokens]
  | reference t kind free =>
    intro other rest others ends ends' same
    cases other with
    | reference t' kind' free' =>
      obtain ⟨rfl, rfl⟩ := List.cons.inj same
      exact ⟨rfl, rfl⟩
    | bareCall t' kind' free' undotted' opening' closing' =>
      obtain ⟨rfl, rfl⟩ := List.cons.inj same
      exact absurd opening'.2 (ends.uncalled _ rfl)
    | call t' kind' free' undotted' opening' inner' closing' =>
      obtain ⟨rfl, rfl⟩ := List.cons.inj same
      exact absurd opening'.2 (ends.uncalled _ rfl)
    | _ => grind [tokens]
  | bareCall t kind free undotted opening closing =>
    intro other rest others ends ends' same
    cases other with
    | reference t' kind' free' =>
      obtain ⟨rfl, rfl⟩ := List.cons.inj same
      exact absurd opening.2 (ends'.uncalled _ rfl)
    | bareCall t' kind' free' undotted' opening' closing' =>
      simp only [tokens, List.cons_append, List.nil_append, List.cons.injEq] at same
      obtain ⟨rfl, first, last, rfl⟩ := same
      obtain rfl : opening = opening' := Subtype.ext first
      obtain rfl : closing = closing' := Subtype.ext last
      exact ⟨rfl, rfl⟩
    | call t' kind' free' undotted' opening' inner' closing' =>
      obtain ⟨u, us, begins, other⟩ := inner'.exists_tokens trivial
      simp only [tokens, begins, List.cons_append, List.nil_append, List.cons.injEq] at same
      obtain ⟨-, -, rfl, -⟩ := same
      exact absurd closing.2 other
    | _ => grind [tokens]
  | call t kind free undotted opening inner closing inner_unique =>
    intro other rest others ends ends' same
    cases other with
    | reference t' kind' free' =>
      obtain ⟨rfl, rfl⟩ := List.cons.inj same
      exact absurd opening.2 (ends'.uncalled _ rfl)
    | bareCall t' kind' free' undotted' opening' closing' =>
      obtain ⟨u, us, begins, other⟩ := inner.exists_tokens trivial
      simp only [tokens, begins, List.cons_append, List.nil_append, List.cons.injEq] at same
      obtain ⟨-, -, rfl, -⟩ := same
      exact absurd closing'.2 other
    | call t' kind' free' undotted' opening' inner' closing' =>
      simp only [tokens, List.cons_append, List.append_assoc, List.cons.injEq] at same
      obtain ⟨rfl, first, following⟩ := same
      obtain rfl : opening = opening' := Subtype.ext first
      obtain ⟨rfl, later⟩ :=
        inner_unique inner' _ _ (.closing closing _) (.closing closing' _) following
      obtain ⟨last, rfl⟩ := List.cons.inj later
      obtain rfl : closing = closing' := Subtype.ext last
      exact ⟨rfl, rfl⟩
    | _ => grind [tokens]
  | argument only only_unique =>
    intro other rest others ends ends' same
    cases other with
    | argument only' =>
      obtain ⟨rfl, rfl⟩ := only_unique only' _ _ ends.1 ends'.1 same
      exact ⟨rfl, rfl⟩
    | arguments first' comma' more' =>
      rw [tokens, tokens, List.append_assoc] at same
      obtain ⟨-, rfl⟩ := only_unique first' _ _ ends.1 (.mark _ comma' (by decide) _) same
      exact absurd comma'.2 (ends.2 _ rfl)
  | arguments first comma more first_unique more_unique =>
    intro other rest others ends ends' same
    cases other with
    | argument only' =>
      rw [tokens, tokens, List.append_assoc] at same
      obtain ⟨-, rfl⟩ := first_unique only' _ _ (.mark _ comma (by decide) _) ends'.1 same
      exact absurd comma.2 (ends'.2 _ rfl)
    | arguments first' comma' more' =>
      rw [tokens, tokens, List.append_assoc, List.append_assoc] at same
      obtain ⟨rfl, later⟩ := first_unique first' _ _ (.mark _ comma (by decide) _)
        (.mark _ comma' (by decide) _) same
      obtain ⟨between, following⟩ := List.cons.inj later
      obtain rfl : comma = comma' := Subtype.ext between
      obtain ⟨rfl, rfl⟩ := more_unique more' _ _ ends ends' following
      exact ⟨rfl, rfl⟩

theorem eq_of_tokens_eq {level : Level} {d other : Derivation (.expression level)}
    (same : d.tokens = other.tokens) : d = other :=
  (d.unique other [] [] (.nil level) (.nil level) (by rw [same])).1

end Derivation

end Rehearsal.Expression
