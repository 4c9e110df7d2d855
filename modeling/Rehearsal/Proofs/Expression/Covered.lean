import Rehearsal.Proofs.Expression.Quoting

/-! `TokenKind.Matches` says how each kind of token is spelled. A text begins with no token exactly
if none of its beginnings is spelled like one (`lexeme?_eq_none_iff`). What `tokenize` has gone
through is covered at each step: by tokens that stand next to each other in their places, and by
blanks between them (`Covers.blank`, `Covers.token`). It ends at the end of the text, or at a
character where neither goes on: `tokenize_covers`. -/

namespace Rehearsal.Expression

open Rehearsal.Text

/-! ### How tokens are spelled -/

/-- Parts of a name after the first one, each with a dot before it. -/
inductive IsParts : List Char → Prop
  | nil : IsParts []
  | part {w s : List Char} (nonempty : w ≠ []) (chars : ∀ c ∈ w, isPartChar c = true)
      (rest : IsParts s) : IsParts ('.' :: (w ++ s))

def TokenKind.Matches : TokenKind → List Char → Prop
  | quoted, w => ∃ (q : Quote) (m : List Char), q.Encloses m ∧ w = q.literal m
  | number, w => Numeral.IsPlain w
  | operator, w => String.ofList w ∈ signs
  | punctuation, w => String.ofList w ∈ marks
  | name, w => ∃ c root parts, isNameStart c = true ∧ (∀ d ∈ root, isNameChar d = true) ∧
      IsParts parts ∧ w = c :: (root ++ parts)

theorem exists_parts (inPart : Bool) (s : List Char) :
    ∃ w parts, s.take (partsLength inPart s) = w ++ parts ∧ (∀ c ∈ w, isPartChar c = true) ∧
      (inPart = false → w = []) ∧ IsParts parts := by
  fun_induction partsLength inPart s with
  | case1 => exact ⟨[], [], rfl, List.forall_mem_nil _, fun _ => rfl, .nil⟩
  | case2 inPart c s own ih =>
    obtain ⟨w, parts, same, chars, -, later⟩ := ih
    refine ⟨[], '.' :: (c :: w ++ parts), ?_, List.forall_mem_nil _, fun _ => rfl, ?_⟩
    · rw [Nat.add_comm, List.take_succ_cons, List.take_succ_cons, same]
      rfl
    · exact .part (List.cons_ne_nil c w) (List.forall_mem_cons.mpr ⟨own, chars⟩) later
  | case3 => exact ⟨[], [], rfl, List.forall_mem_nil _, fun _ => rfl, .nil⟩
  | case4 inPart c s other own ih =>
    obtain ⟨inside, part⟩ := Bool.and_eq_true_iff.mp own
    obtain ⟨w, parts, same, chars, -, later⟩ := ih
    refine ⟨c :: w, parts, ?_, List.forall_mem_cons.mpr ⟨part, chars⟩, ?_, later⟩
    · rw [Nat.add_comm, List.take_succ_cons, same]
      rfl
    · intro outside
      rw [inside] at outside
      cases outside
  | case5 => exact ⟨[], [], rfl, List.forall_mem_nil _, fun _ => rfl, .nil⟩

theorem matches_of_name? {s : List Char} {n : Nat} (found : name? s = some n) :
    TokenKind.name.Matches (s.take n) := by
  cases s with
  | nil => cases found
  | cons c s =>
    rw [name?] at found
    split at found
    · next start =>
      obtain rfl := Option.some.inj found
      obtain ⟨w, parts, same, -, none, later⟩ := exists_parts false (s.dropWhile isNameChar)
      rw [none rfl, List.nil_append] at same
      refine ⟨c, s.takeWhile isNameChar, parts, start, ?_, later, ?_⟩
      · exact fun d member => List.mem_takeWhile_imp member
      · rw [Nat.add_assoc, Nat.add_comm 1, List.take_succ_cons, take_takeWhile_add, same]
    · cases found

theorem matches_of_length? {kind : TokenKind} {s : List Char} {n : Nat}
    (found : kind.length? s = some n) : kind.Matches (s.take n) := by
  cases kind with
  | quoted => exact Quoted.exists_literal_of_length? found
  | number =>
    show TokenKind.number.IsWord (s.take n)
    exact isWord_of_length? found
  | operator =>
    show TokenKind.operator.IsWord (s.take n)
    exact isWord_of_length? found
  | punctuation =>
    show TokenKind.punctuation.IsWord (s.take n)
    exact isWord_of_length? found
  | name => exact matches_of_name? found

theorem exists_digit_of_isUnsigned {w : List Char} (own : Numeral.IsUnsigned w) :
    ∃ c s, w = c :: s ∧ isDecimalDigit c = true := by
  have first {digits : List Char} (own : IsDigits digits) :
      ∃ c s, digits = c :: s ∧ isDecimalDigit c = true := by
    obtain ⟨c, s, rfl⟩ := List.exists_cons_of_ne_nil own.nonempty
    exact ⟨c, s, rfl, own.decimal c List.mem_cons_self⟩
  cases own with
  | whole own => exact first own
  | fraction own further =>
    obtain ⟨c, s, rfl, digit⟩ := first own
    exact ⟨c, _, List.cons_append, digit⟩

theorem isSome_numeral?_of_isPlain {w : List Char} (own : Numeral.IsPlain w) (s : List Char) :
    (numeral? (w ++ s)).isSome = true := by
  cases own with
  | positive own =>
    obtain ⟨c, rest, rfl, digit⟩ := exists_digit_of_isUnsigned own
    have unsigned : c ≠ '-' := by
      rintro rfl
      exact absurd digit (by decide +kernel)
    rw [List.cons_append, numeral?, if_pos digit]
    · rfl
    · exact fun _ _ same _ => unsigned same
  | negative own =>
    obtain ⟨c, rest, rfl, digit⟩ := exists_digit_of_isUnsigned own
    rw [List.cons_append, List.cons_append, numeral?, if_pos digit]
    rfl

theorem isSome_operator?_of_mem : ∀ text ∈ signs, ∀ s : List Char,
    (operator? (text.toList ++ s)).isSome = true := by
  have single (c : Char) (own : c = '<' ∨ c = '>' ∨ c = '!') (s : List Char) :
      (operator? (c :: s)).isSome = true := by
    unfold operator?
    grind
  simp only [signs, List.forall_mem_cons]
  refine ⟨?_, ?_, ?_, ?_, single _ (by decide), ?_, single _ (by decide), ?_, single _ (by decide),
    List.forall_mem_nil _⟩ <;> exact fun s => rfl

theorem isSome_length?_of_matches {kind : TokenKind} {w : List Char} (own : kind.Matches w)
    (s : List Char) : (kind.length? (w ++ s)).isSome = true := by
  cases kind with
  | quoted =>
    obtain ⟨q, m, inside, rfl⟩ := own
    exact Quoted.isSome_length?_of_encloses inside s
  | number => exact isSome_numeral?_of_isPlain own s
  | operator =>
    have known := isSome_operator?_of_mem _ own s
    rwa [String.toList_ofList] at known
  | punctuation =>
    have known : ∀ text ∈ marks, ∀ s, (punctuation? (text.toList ++ s)).isSome = true := by
      simp only [marks, List.forall_mem_cons]
      exact ⟨fun s => rfl, fun s => rfl, fun s => rfl, List.forall_mem_nil _⟩
    have own := known _ own s
    rwa [String.toList_ofList] at own
  | name =>
    obtain ⟨c, root, parts, start, -, -, rfl⟩ := own
    show (name? (c :: (root ++ parts ++ s))).isSome = true
    rw [name?, if_pos start]
    rfl

theorem lexeme?_eq_none_iff {s : List Char} :
    lexeme? s = none ↔ ∀ (kind : TokenKind) (w : List Char), kind.Matches w → ¬w <+: s := by
  constructor
  · rintro none kind w own ⟨rest, rfl⟩
    simp only [lexeme?, Option.orElse_eq_or, Option.or_eq_none_iff, Option.map_eq_none_iff] at none
    obtain ⟨quoted, number, operator, punctuation, name⟩ := none
    have absent : kind.length? (w ++ rest) = .none := by
      cases kind with
      | quoted => exact quoted
      | number => exact number
      | operator => exact operator
      | punctuation => exact punctuation
      | name => exact name
    have found := isSome_length?_of_matches own rest
    rw [absent] at found
    cases found
  · intro none
    cases found : lexeme? s with
    | none => rfl
    | some lexeme =>
      obtain ⟨kind, n⟩ := lexeme
      have own := matches_of_length? (length?_of_lexeme? found)
      exact absurd (List.take_prefix n s) (none kind _ own)

/-! ### Covered texts -/

def Token.stop (t : Token) : Nat := t.position + t.text.length

/-- That tokens stand in a text one after the other, each spelled like its kind, and that all
characters outside them are blank. -/
structure Covers (s : List Char) (ts : List Token) : Prop where
  spelled : ∀ t ∈ ts, t.kind.Matches t.text.toList
  nonempty : ∀ t ∈ ts, t.position < t.stop
  ordered : ts.Pairwise fun t u => t.stop ≤ u.position
  within : ∀ t ∈ ts, t.stop ≤ s.length
  placed : ∀ t ∈ ts, (s.take t.stop).drop t.position = t.text.toList
  blank : ∀ i c, s[i]? = some c → (∀ t ∈ ts, i < t.position ∨ t.stop ≤ i) → isBlank c = true

namespace Covers

variable {s : List Char} {ts : List Token}

theorem nil : Covers [] [] := by
  constructor <;> simp

theorem placed_append (covers : Covers s ts) (w : List Char) :
    ∀ t ∈ ts, ((s ++ w).take t.stop).drop t.position = t.text.toList := by
  intro t member
  rw [List.take_append_of_le_length (covers.within t member)]
  exact covers.placed t member

theorem within_append (covers : Covers s ts) (w : List Char) :
    ∀ t ∈ ts, t.stop ≤ (s ++ w).length := by
  intro t member
  have inside := covers.within t member
  rw [List.length_append]
  omega

theorem blank_append (covers : Covers s ts) {w : List Char} {i : Nat} {c : Char}
    (before : i < s.length) (at_ : (s ++ w)[i]? = some c)
    (outside : ∀ t ∈ ts, i < t.position ∨ t.stop ≤ i) : isBlank c = true := by
  rw [List.getElem?_append_left before] at at_
  exact covers.blank i c at_ outside

theorem blank_step (covers : Covers s ts) {c : Char} (blank : isBlank c = true) :
    Covers (s ++ [c]) ts where
  spelled := covers.spelled
  nonempty := covers.nonempty
  ordered := covers.ordered
  within := covers.within_append [c]
  placed := covers.placed_append [c]
  blank := by
    intro i d at_ outside
    by_cases before : i < s.length
    · exact covers.blank_append before at_ outside
    · have bound := (List.getElem?_eq_some_iff.mp at_).1
      rw [List.length_append, List.length_singleton] at bound
      obtain rfl : i = s.length := by omega
      rw [List.getElem?_concat_length] at at_
      obtain rfl := Option.some.inj at_
      exact blank

theorem token_step (covers : Covers s ts) {kind : TokenKind} {w : List Char}
    (own : kind.Matches w) (some : w ≠ []) :
    Covers (s ++ w) (ts ++ [⟨kind, String.ofList w, s.length⟩]) := by
  have long := List.length_pos_iff.mpr some
  have stop : Token.stop ⟨kind, String.ofList w, s.length⟩ = s.length + w.length := by
    rw [Token.stop, String.length_ofList]
  constructor
  case spelled =>
    rw [List.forall_mem_append, List.forall_mem_singleton, String.toList_ofList]
    exact ⟨covers.spelled, own⟩
  case nonempty =>
    rw [List.forall_mem_append, List.forall_mem_singleton, stop]
    exact ⟨covers.nonempty, by dsimp only; omega⟩
  case ordered =>
    rw [List.pairwise_append]
    refine ⟨covers.ordered, List.pairwise_singleton _ _, ?_⟩
    intro t member u last
    obtain rfl := List.mem_singleton.mp last
    exact covers.within t member
  case within =>
    rw [List.forall_mem_append, List.forall_mem_singleton, stop, List.length_append]
    exact ⟨List.length_append ▸ covers.within_append w, Nat.le_refl _⟩
  case placed =>
    rw [List.forall_mem_append, List.forall_mem_singleton, stop, ← List.length_append,
      List.take_length, List.drop_left, String.toList_ofList]
    exact ⟨covers.placed_append w, rfl⟩
  case blank =>
    intro i c at_ outside
    rw [List.forall_mem_append, List.forall_mem_singleton, stop] at outside
    obtain ⟨others, last⟩ := outside
    have bound := (List.getElem?_eq_some_iff.mp at_).1
    rw [List.length_append] at bound
    dsimp only at last
    exact covers.blank_append (by omega) at_ others

end Covers

/-! ### Tokenizing covers -/

/-- Where tokenizing ends that has begun behind a covered text: at the end, with all covered, or at
a character with which neither a blank nor a token begins. -/
theorem tokenizeFrom_covers (s : List Char) {before : List Char} {ts : List Token}
    (covers : Covers before ts) :
    (∃ more, tokenizeFrom 0 before.length s = .ok more ∧ Covers (before ++ s) (ts ++ more)) ∨
    ∃ w c rest more, s = w ++ c :: rest ∧
      tokenizeFrom 0 before.length s = .error (.character c (before ++ w).length) ∧
      Covers (before ++ w) (ts ++ more) ∧ isBlank c = false ∧ lexeme? (c :: rest) = none := by
  cases s with
  | nil =>
    refine .inl ⟨[], rfl, ?_⟩
    rwa [List.append_nil, List.append_nil]
  | cons c s =>
    cases blank : isBlank c with
    | true =>
      have step : tokenizeFrom 0 before.length (c :: s) =
          tokenizeFrom 0 (before ++ [c]).length s := by
        rw [tokenizeFrom_blank blank, List.length_append, List.length_singleton]
      rw [step]
      rcases tokenizeFrom_covers s (covers.blank_step blank) with
        ⟨more, read, all⟩ | ⟨w, d, rest, more, rfl, refused, part, stuck⟩
      · exact .inl ⟨more, read, by rwa [List.append_assoc] at all⟩
      · refine .inr ⟨c :: w, d, rest, more, rfl, ?_, ?_, stuck⟩
        · rw [refused, List.append_assoc]
          rfl
        · rwa [List.append_assoc] at part
    | false =>
      cases found : lexeme? (c :: s) with
      | none =>
        refine .inr ⟨[], c, s, [], rfl, ?_, ?_, blank, found⟩
        · rw [tokenizeFrom_refused blank found, List.append_nil]
        · rwa [List.append_nil, List.append_nil]
      | some lexeme =>
        obtain ⟨kind, n⟩ := lexeme
        obtain ⟨w, rest, rfl, rfl⟩ := exists_of_lexeme? found
        have own : kind.Matches (c :: w) := by
          have spelled := matches_of_length? (length?_of_lexeme? found)
          rwa [← List.cons_append, List.take_left] at spelled
        rw [← List.cons_append] at found ⊢
        have step := tokenizeFrom_token blank found before.length
        rw [← List.length_append] at step
        rw [step]
        rcases tokenizeFrom_covers rest (covers.token_step own (List.cons_ne_nil c w)) with
          ⟨more, read, all⟩ | ⟨v, d, tail, more, rfl, refused, part, stuck⟩
        · refine .inl ⟨⟨kind, String.ofList (c :: w), before.length⟩ :: more, by rw [read]; rfl, ?_⟩
          rwa [List.append_assoc, List.append_assoc] at all
        · refine .inr ⟨c :: w ++ v, d, tail, ⟨kind, String.ofList (c :: w), before.length⟩ :: more,
            by rw [List.append_assoc], ?_, ?_, stuck⟩
          · rw [refused, List.append_assoc]
            rfl
          · rwa [List.append_assoc, List.append_assoc] at part
termination_by s.length

/-- **Tokens and blanks cover a text.** Tokenizing a text gives tokens that cover all of it, or it
stops at a character that is neither blank nor the first one of a token, whatever its kind; then
what stands before this character is covered. -/
theorem tokenize_covers (text : String) :
    (∃ ts, tokenize text = .ok ts ∧ Covers text.toList ts) ∨
    ∃ c position, tokenize text = .error (.character c position) ∧
      text.toList[position]? = some c ∧
      (∃ ts, Covers (text.toList.take position) ts) ∧
      isBlank c = false ∧
      ∀ (kind : TokenKind) (w : List Char), kind.Matches w → ¬w <+: text.toList.drop position := by
  rcases tokenizeFrom_covers text.toList .nil with
    ⟨ts, read, all⟩ | ⟨w, c, rest, ts, same, refused, part, visible, none⟩
  · exact .inl ⟨ts, read, all⟩
  · refine .inr ⟨c, w.length, refused, ?_, ⟨ts, ?_⟩, visible, ?_⟩
    · rw [same, List.getElem?_append_right (Nat.le_refl _), Nat.sub_self]
      rfl
    · rwa [same, List.take_left]
    · rw [same, List.drop_left]
      exact lexeme?_eq_none_iff.mp none

end Rehearsal.Expression
