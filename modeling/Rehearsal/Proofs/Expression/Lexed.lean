import Rehearsal.Expression.Token
import Rehearsal.Proofs.Number.Plain

/-! `Lexed` holds of a text and its tokens: what stands at the places of the tokens is longest among
what they could be, and blank characters stand between them. A text has tokens exactly if it is
lexed (`tokenize_iff`), and each token has a word of its kind (`Lexed.isWord`). -/

namespace Rehearsal.Expression

open Rehearsal.Text

/-! ### Paths -/

/-- Name characters in which every dot stands before one of them. -/
inductive IsPath : List Char → Prop
  | nil : IsPath []
  | part {c : Char} {s : List Char} (own : isPartChar c = true) (rest : IsPath s) : IsPath (c :: s)
  | dot {c : Char} {s : List Char} (own : isPartChar c = true) (rest : IsPath s) :
      IsPath ('.' :: c :: s)

theorem isBlank_of_isPartChar {c : Char} (own : isPartChar c = true) :
    isBlank c = false := by
  have between {low high : UInt32} (within : low ≤ c.val ∧ c.val ≤ high)
      (above : 42 ≤ low.toNat) (below : high.toNat ≤ 122) : 42 ≤ c.toNat ∧ c.toNat ≤ 122 :=
    ⟨Nat.le_trans above (UInt32.le_iff_toNat_le.mp within.1),
      Nat.le_trans (UInt32.le_iff_toNat_le.mp within.2) below⟩
  have near : 42 ≤ c.toNat ∧ c.toNat ≤ 122 := by
    simp only [isPartChar, isNameChar, Char.isAlphanum, Char.isDigit, Bool.or_eq_true,
      Bool.and_eq_true, decide_eq_true_eq, beq_iff_eq] at own
    rcases own with (((alpha | digit) | rfl) | rfl) | rfl
    · have cases : (c.isUpper || c.isLower) = true := alpha
      rcases Bool.or_eq_true_iff.mp cases with upper | lower
      · exact between (of_decide_eq_true upper) (by decide) (by decide)
      · have both : (decide (c.val ≥ 'a'.val) && decide (c.val ≤ 'z'.val)) = true := lower
        rw [Bool.and_eq_true, decide_eq_true_iff, decide_eq_true_iff] at both
        exact between both (by decide) (by decide)
    · exact between digit (by decide) (by decide)
    · decide
    · decide
    · decide
  simp only [isBlank, Bool.or_eq_false_iff, Bool.and_eq_false_iff, decide_eq_false_iff_not,
    beq_eq_false_iff_ne]
  omega

namespace IsPath

theorem isPartChar_or {s : List Char} (path : IsPath s) {c : Char} (member : c ∈ s) :
    c = '.' ∨ isPartChar c = true := by
  induction path with
  | nil => cases member
  | part own _ ih =>
    rcases List.mem_cons.mp member with rfl | member
    · exact .inr own
    · exact ih member
  | dot own _ ih =>
    rcases List.mem_cons.mp member with rfl | member
    · exact .inl rfl
    · rcases List.mem_cons.mp member with rfl | member
      · exact .inr own
      · exact ih member

theorem append {a b : List Char} (parts : ∀ c ∈ a, isPartChar c = true) (rest : IsPath b) :
    IsPath (a ++ b) := by
  induction a with
  | nil => exact rest
  | cons c a ih =>
    rw [List.forall_mem_cons] at parts
    exact .part parts.1 (ih parts.2)

theorem after_dot {a b : List Char} (path : IsPath (a ++ '.' :: b)) :
    ∃ c rest, b = c :: rest ∧ isPartChar c = true := by
  have dotless : ¬isPartChar '.' = true := by decide
  generalize same : a ++ '.' :: b = s at path
  induction path generalizing a with
  | nil => simp at same
  | part own _ ih =>
    cases a with
    | nil =>
      obtain ⟨rfl, -⟩ := List.cons.inj same
      exact absurd own dotless
    | cons first a => exact ih (List.cons.inj same).2
  | @dot c s own rest ih =>
    cases a with
    | nil => exact ⟨c, s, (List.cons.inj same).2, own⟩
    | cons first a =>
      obtain ⟨-, same⟩ := List.cons.inj same
      cases a with
      | nil =>
        obtain ⟨rfl, -⟩ := List.cons.inj same
        exact absurd own dotless
      | cons second a => exact ih (List.cons.inj same).2

theorem trim_eq {s : List Char} (path : IsPath s) : trim s = s := by
  have visible : ∀ c ∈ s, isBlank c = false := by
    intro c member
    rcases path.isPartChar_or member with rfl | part
    · decide
    · exact isBlank_of_isPartChar part
  exact trim_eq_self (fun c first => visible c (List.mem_of_head? first))
    fun c last => visible c (List.mem_of_getLast? last)

end IsPath

/-! ### Names in a text -/

theorem take_takeWhile_add (p : Char → Bool) (s : List Char) (n : Nat) :
    s.take ((s.takeWhile p).length + n) = s.takeWhile p ++ (s.dropWhile p).take n := by
  have split : (s.takeWhile p ++ s.dropWhile p).take ((s.takeWhile p).length + n) =
      s.takeWhile p ++ (s.dropWhile p).take n := List.take_length_add_append _
  rwa [List.takeWhile_append_dropWhile] at split

theorem isPath_take_partsLength (inPart : Bool) (s : List Char) :
    IsPath (s.take (partsLength inPart s)) := by
  fun_induction partsLength inPart s with
  | case1 => exact .nil
  | case2 inPart c s own ih =>
    rw [Nat.add_comm]
    exact .dot own ih
  | case3 => exact .nil
  | case4 inPart c s other own ih =>
    rw [Nat.add_comm]
    exact .part (Bool.and_eq_true_iff.mp own).2 ih
  | case5 => exact .nil

theorem isPath_of_name? {s : List Char} {n : Nat} (found : name? s = some n) :
    IsPath (s.take n) := by
  cases s with
  | nil => cases found
  | cons c s =>
    rw [name?] at found
    split at found
    · next start =>
      obtain rfl := Option.some.inj found
      have first : isPartChar c = true := by
        unfold isNameStart at start
        unfold isPartChar isNameChar Char.isAlphanum
        grind
      have parts : ∀ d ∈ s.takeWhile isNameChar, isPartChar d = true := by
        intro d member
        have own := List.all_eq_true.mp List.all_takeWhile d member
        simp [isPartChar, own]
      have later := isPath_take_partsLength false (s.dropWhile isNameChar)
      rw [Nat.add_assoc, Nat.add_comm 1, List.take_succ_cons, take_takeWhile_add]
      exact .part first (.append parts later)
    · cases found

/-! ### Where quoted strings end -/

theorem Quoted.single?_bounds {s : List Char} {n : Nat} (found : single? s = some n) :
    0 < n ∧ n ≤ s.length := by
  fun_induction single? s generalizing n with
  | case1 => cases found
  | case2 s m closed ih =>
    cases found
    have := (ih closed).2
    simp only [List.length_cons]
    omega
  | case3 s unclosed ih =>
    cases found
    simp
  | case4 s other =>
    cases found
    simp
  | case5 c s other _ ih =>
    obtain ⟨m, closed, rfl⟩ := Option.map_eq_some_iff.mp found
    have := (ih closed).2
    simp only [List.length_cons]
    omega

theorem Quoted.double?_bounds {s : List Char} {n : Nat} (found : double? s = some n) :
    0 < n ∧ n ≤ s.length := by
  fun_induction double? s generalizing n with
  | case1 => cases found
  | case2 s =>
    cases found
    simp
  | case3 => cases found
  | case4 => cases found
  | case5 c s other ih =>
    obtain ⟨m, closed, rfl⟩ := Option.map_eq_some_iff.mp found
    have := (ih closed).2
    simp only [List.length_cons]
    omega
  | case6 c s _ _ _ ih =>
    obtain ⟨m, closed, rfl⟩ := Option.map_eq_some_iff.mp found
    have := (ih closed).2
    simp only [List.length_cons]
    omega

theorem Quoted.length?_bounds {s : List Char} {n : Nat} (found : length? s = some n) :
    0 < n ∧ n ≤ s.length := by
  unfold length? at found
  split at found
  · obtain ⟨m, closed, rfl⟩ := Option.map_eq_some_iff.mp found
    have := single?_bounds closed
    simp only [List.length_cons]
    omega
  · obtain ⟨m, closed, rfl⟩ := Option.map_eq_some_iff.mp found
    have := double?_bounds closed
    simp only [List.length_cons]
    omega
  · cases found

/-! ### Numerals -/

theorem take_length_takeWhile (p : Char → Bool) (s : List Char) :
    s.take (s.takeWhile p).length = s.takeWhile p :=
  (List.prefix_iff_eq_take.mp (List.takeWhile_prefix p)).symm

theorem isDigits_takeWhile {s : List Char} (nonempty : (s.takeWhile isDecimalDigit).length ≠ 0) :
    IsDigits (s.takeWhile isDecimalDigit) where
  nonempty := List.ne_nil_of_length_pos (Nat.pos_of_ne_zero nonempty)
  decimal := fun _ member => List.mem_takeWhile_imp member

theorem isUnsigned_take_numeralLength {s : List Char}
    (nonempty : (s.takeWhile isDecimalDigit).length ≠ 0) :
    Numeral.IsUnsigned (s.take (numeralLength s)) := by
  have own := isDigits_takeWhile nonempty
  have whole : Numeral.IsUnsigned (s.take (s.takeWhile isDecimalDigit).length) := by
    rw [take_length_takeWhile]
    exact .whole own
  unfold numeralLength
  split
  · next rest same =>
    split
    · exact whole
    · next places some =>
      have text := List.takeWhile_append_dropWhile (p := isDecimalDigit) (l := s)
      rw [same] at text
      have taken : s.take ((s.takeWhile isDecimalDigit).length + 1 +
          (rest.takeWhile isDecimalDigit).length) =
            s.takeWhile isDecimalDigit ++ '.' :: rest.takeWhile isDecimalDigit := by
        conv => lhs; arg 2; rw [← text]
        rw [Nat.add_assoc, List.take_length_add_append, Nat.add_comm 1, List.take_succ_cons,
          take_length_takeWhile]
      rw [taken]
      exact .fraction own (isDigits_takeWhile some)
  · exact whole

theorem isPlain_of_numeral? {s : List Char} {n : Nat} (found : numeral? s = some n) :
    Numeral.IsPlain (s.take n) := by
  have nonempty {c : Char} (s : List Char) (digit : isDecimalDigit c = true) :
      ((c :: s).takeWhile isDecimalDigit).length ≠ 0 := by simp [digit]
  unfold numeral? at found
  split at found
  · split at found
    · next digit =>
      cases found
      rw [Nat.add_comm, List.take_succ_cons]
      exact .negative (isUnsigned_take_numeralLength (nonempty _ digit))
    · cases found
  · split at found
    · next digit =>
      cases found
      exact .positive (isUnsigned_take_numeralLength (nonempty _ digit))
    · cases found
  · cases found

theorem numeralLength_le (s : List Char) : numeralLength s ≤ s.length := by
  have text := congrArg List.length
    (List.takeWhile_append_dropWhile (p := isDecimalDigit) (l := s))
  rw [List.length_append] at text
  unfold numeralLength
  dsimp only
  split
  · next rest same =>
    have fraction := (List.takeWhile_sublist isDecimalDigit (l := rest)).length_le
    rw [same, List.length_cons] at text
    split
    · omega
    · omega
  · omega

theorem numeral?_bounds {s : List Char} {n : Nat} (found : numeral? s = some n) :
    0 < n ∧ n ≤ s.length := by
  unfold numeral? at found
  split at found
  · next c s =>
    have := numeralLength_le (c :: s)
    split at found
    · cases found
      rw [List.length_cons]
      omega
    · cases found
  · next c s _ =>
    have := numeralLength_le (c :: s)
    split at found
    · next digit =>
      cases found
      have nonempty : (c :: s).takeWhile isDecimalDigit ≠ [] := by simp [digit]
      refine ⟨?_, this⟩
      unfold numeralLength
      have := List.length_pos_iff.mpr nonempty
      dsimp only
      split
      · split <;> omega
      · omega
    · cases found
  · cases found

theorem partsLength_le (inPart : Bool) (s : List Char) : partsLength inPart s ≤ s.length := by
  fun_induction partsLength inPart s with
  | case1 => exact Nat.le_refl _
  | case2 inPart c s own ih =>
    simp only [List.length_cons]
    omega
  | case3 => exact Nat.zero_le _
  | case4 inPart c s other own ih =>
    simp only [List.length_cons]
    omega
  | case5 => exact Nat.zero_le _

/-! ### Lexemes -/

def TokenKind.length? : TokenKind → List Char → Option Nat
  | quoted, s => Quoted.length? s
  | number, s => numeral? s
  | operator, s => operator? s
  | punctuation, s => punctuation? s
  | name, s => name? s

theorem length?_of_lexeme? {s : List Char} {kind : TokenKind} {n : Nat}
    (found : lexeme? s = some (kind, n)) : kind.length? s = some n := by
  simp only [lexeme?, Option.orElse_eq_or, Option.or_eq_some_iff, Option.map_eq_some_iff] at found
  rcases found with ⟨m, own, same⟩ | ⟨-, ⟨m, own, same⟩ | ⟨-, ⟨m, own, same⟩ | ⟨-, rest⟩⟩⟩
  · cases same
    exact own
  · cases same
    exact own
  · cases same
    exact own
  · rcases rest with ⟨m, own, same⟩ | ⟨-, m, own, same⟩
    · cases same
      exact own
    · cases same
      exact own

theorem lexeme?_congr {s t : List Char} (same : ∀ kind, TokenKind.length? kind s = kind.length? t) :
    lexeme? s = lexeme? t := by
  have quoted : Quoted.length? s = Quoted.length? t := same .quoted
  have number : numeral? s = numeral? t := same .number
  have operator : operator? s = operator? t := same .operator
  have punctuation : punctuation? s = punctuation? t := same .punctuation
  have name : name? s = name? t := same .name
  unfold lexeme?
  rw [quoted, number, operator, punctuation, name]

theorem name?_bounds {s : List Char} {n : Nat} (found : name? s = some n) :
    0 < n ∧ n ≤ s.length := by
  unfold name? at found
  split at found
  · cases found
  · next c s =>
    split at found
    · cases found
      have text := congrArg List.length
        (List.takeWhile_append_dropWhile (p := isNameChar) (l := s))
      have parts := partsLength_le false (s.dropWhile isNameChar)
      rw [List.length_append] at text
      rw [List.length_cons]
      omega
    · cases found

theorem length?_bounds {kind : TokenKind} {s : List Char} {n : Nat}
    (found : kind.length? s = some n) : 0 < n ∧ n ≤ s.length := by
  cases kind with
  | quoted => exact Quoted.length?_bounds found
  | number => exact numeral?_bounds found
  | operator =>
    have found : operator? s = some n := found
    unfold operator? at found
    split at found <;> cases found <;> simp
  | punctuation =>
    have found : punctuation? s = some n := found
    unfold punctuation? at found
    split at found <;> cases found <;> simp
  | name => exact name?_bounds found

def signs : List String := ["||", "&&", "==", "!=", "<", "<=", ">", ">=", "!"]

def marks : List String := ["(", ")", ","]

def TokenKind.IsWord : TokenKind → List Char → Prop
  | quoted, _ => True
  | number, w => Numeral.IsPlain w
  | operator, w => String.ofList w ∈ signs
  | punctuation, w => String.ofList w ∈ marks
  | name, w => IsPath w

theorem isWord_of_length? {kind : TokenKind} {s : List Char} {n : Nat}
    (found : kind.length? s = some n) : kind.IsWord (s.take n) := by
  cases kind with
  | quoted => trivial
  | number => exact isPlain_of_numeral? found
  | operator =>
    have found : operator? s = some n := found
    unfold operator? at found
    split at found <;> cases found <;>
      · simp only [TokenKind.IsWord, List.take_succ_cons, List.take_zero]
        decide
  | punctuation =>
    have found : punctuation? s = some n := found
    unfold punctuation? at found
    split at found <;> cases found <;>
      · simp only [TokenKind.IsWord, List.take_succ_cons, List.take_zero]
        decide
  | name => exact isPath_of_name? found

/-! ### Texts as tokens -/

/-- The tokens of a text that starts at a position: each is what stands there, and all between them
is blank. -/
inductive Lexed : (position : Nat) → List Char → List Token → Prop
  | nil (position : Nat) : Lexed position [] []
  | blank {position : Nat} {c : Char} {s : List Char} {ts : List Token} (blank : isBlank c = true)
      (rest : Lexed (position + 1) s ts) : Lexed position (c :: s) ts
  | token {position : Nat} {kind : TokenKind} {c : Char} {w s : List Char} {ts : List Token}
      (plain : isBlank c = false) (found : lexeme? (c :: w ++ s) = some (kind, (c :: w).length))
      (rest : Lexed (position + (c :: w).length) s ts) :
      Lexed position (c :: w ++ s) (⟨kind, String.ofList (c :: w), position⟩ :: ts)

theorem tokenizeFrom_append (w s : List Char) (position : Nat) :
    tokenizeFrom w.length position (w ++ s) = tokenizeFrom 0 (position + w.length) s := by
  induction w generalizing position with
  | nil => rfl
  | cons c w ih =>
    rw [List.length_cons, List.cons_append, tokenizeFrom, ih, Nat.add_right_comm, Nat.add_assoc]

theorem tokenizeFrom_blank {c : Char} (blank : isBlank c = true) (position : Nat) (s : List Char) :
    tokenizeFrom 0 position (c :: s) = tokenizeFrom 0 (position + 1) s := by
  rw [tokenizeFrom, if_pos blank]

theorem tokenizeFrom_token {kind : TokenKind} {c : Char} {w s : List Char}
    (plain : isBlank c = false) (found : lexeme? (c :: w ++ s) = some (kind, (c :: w).length))
    (position : Nat) : tokenizeFrom 0 position (c :: w ++ s) =
      (tokenizeFrom 0 (position + (c :: w).length) s).map
        (⟨kind, String.ofList (c :: w), position⟩ :: ·) := by
  have own : (c :: (w ++ s)).take (c :: w).length = c :: w := List.take_left
  rw [List.cons_append] at found ⊢
  rw [tokenizeFrom, plain, found]
  dsimp only
  rw [if_neg Bool.false_ne_true, own, List.length_cons, Nat.add_one_sub_one, tokenizeFrom_append,
    Nat.add_right_comm, Nat.add_assoc]

theorem tokenizeFrom_refused {c : Char} {s : List Char} (plain : isBlank c = false)
    (none : lexeme? (c :: s) = none) (position : Nat) :
    tokenizeFrom 0 position (c :: s) = .error (.character c position) := by
  rw [tokenizeFrom, plain, none]
  rfl

theorem exists_of_lexeme? {kind : TokenKind} {c : Char} {s : List Char} {n : Nat}
    (found : lexeme? (c :: s) = some (kind, n)) :
    ∃ w rest, s = w ++ rest ∧ n = (c :: w).length := by
  have bounds := length?_bounds (length?_of_lexeme? found)
  rw [List.length_cons] at bounds
  refine ⟨s.take (n - 1), s.drop (n - 1), (List.take_append_drop _ s).symm, ?_⟩
  rw [List.length_cons, List.length_take]
  omega

theorem Lexed.tokenizeFrom_eq {position : Nat} {s : List Char} {ts : List Token}
    (lexed : Lexed position s ts) : tokenizeFrom 0 position s = .ok ts := by
  induction lexed with
  | nil => rfl
  | blank blank _ ih => rw [tokenizeFrom_blank blank, ih]
  | token plain found _ ih =>
    rw [tokenizeFrom_token plain found, ih]
    rfl

theorem lexed_of_tokenizeFrom {position : Nat} {s : List Char} {ts : List Token}
    (read : tokenizeFrom 0 position s = .ok ts) : Lexed position s ts := by
  cases s with
  | nil =>
    cases read
    exact .nil position
  | cons c s =>
    cases blank : isBlank c with
    | true =>
      rw [tokenizeFrom_blank blank] at read
      exact .blank blank (lexed_of_tokenizeFrom read)
    | false =>
      cases found : lexeme? (c :: s) with
      | none =>
        rw [tokenizeFrom_refused blank found] at read
        cases read
      | some lexeme =>
        obtain ⟨kind, n⟩ := lexeme
        obtain ⟨w, rest, rfl, rfl⟩ := exists_of_lexeme? found
        rw [← List.cons_append] at found read ⊢
        rw [tokenizeFrom_token blank found] at read
        cases later : tokenizeFrom 0 (position + (c :: w).length) rest with
        | error refusal =>
          rw [later] at read
          cases read
        | ok more =>
          rw [later] at read
          cases read
          exact .token blank found (lexed_of_tokenizeFrom later)
termination_by s.length

theorem tokenize_iff {text : String} {ts : List Token} :
    tokenize text = .ok ts ↔ Lexed 0 text.toList ts :=
  ⟨lexed_of_tokenizeFrom, Lexed.tokenizeFrom_eq⟩

theorem Lexed.isWord {position : Nat} {s : List Char} {ts : List Token}
    (lexed : Lexed position s ts) : ∀ t ∈ ts, t.kind.IsWord t.text.toList := by
  induction lexed with
  | nil => nofun
  | blank _ _ ih => exact ih
  | @token position kind c w s ts _ found _ ih =>
    refine List.forall_mem_cons.mpr ⟨?_, ih⟩
    have own := isWord_of_length? (length?_of_lexeme? found)
    rw [List.take_left] at own
    rw [String.toList_ofList]
    exact own

end Rehearsal.Expression
