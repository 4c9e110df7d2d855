import Mathlib.Data.List.Chain
import Rehearsal.Json.Parse
import Rehearsal.Json.Render
import Rehearsal.Proofs.Number.Plain

/-! A string that is written as JSON is read back as it was (`stringBody_string`), unless it has the
first half of a pair right before a second one: their escapes are read as the character that the
pair stands for. Writing adds no words of letters to it (`infix_of_escaped`). The letter of an
escape stands right after a backslash, and the digits of a character that is written by its number
are no `n`. -/

namespace Rehearsal

theorem hexadecimal_succ {width : Nat} (pos : 0 < width) (n : Nat) :
    hexadecimal (width + 1) n = hexadecimal width (n / 16) ++ [Nat.digitChar (n % 16)] := by
  obtain ⟨width, rfl⟩ : ∃ k, width = k + 1 := ⟨width - 1, by omega⟩
  unfold hexadecimal
  dsimp only
  by_cases small : n < 16
  · rw [Nat.div_eq_of_lt small, Nat.mod_eq_of_lt small, Nat.toDigits_of_lt_base small,
      Nat.toDigits_zero]
    simp [List.replicate_succ']
  · have digits : Nat.toDigits 16 n = Nat.toDigits 16 (n / 16) ++ [Nat.digitChar (n % 16)] := by
      rw [Nat.toDigits_eq_if (by decide), if_neg small]
    have length : width + 1 + 1 - (Nat.toDigits 16 n).length =
        width + 1 - (Nat.toDigits 16 (n / 16)).length := by
      rw [digits, List.length_append, List.length_singleton]
      omega
    rw [length, digits, List.append_assoc]

theorem hexadecimal_four {n : Nat} (small : n < 0x10000) :
    hexadecimal 4 n = [Nat.digitChar (n / 0x1000), Nat.digitChar (n / 0x100 % 16),
      Nat.digitChar (n / 0x10 % 16), Nat.digitChar (n % 16)] := by
  have one (n : Nat) (small : n < 16) : hexadecimal 1 n = [Nat.digitChar n] := by
    rw [hexadecimal, Nat.toDigits_of_lt_base small]
    rfl
  rw [hexadecimal_succ (by decide), hexadecimal_succ (by decide), hexadecimal_succ (by decide),
    one _ (by omega)]
  simp [Nat.div_div_eq_div_mul]

theorem n_not_mem_hexadecimal (width n : Nat) : 'n' ∉ hexadecimal width n := by
  intro member
  rcases List.mem_append.mp member with padding | digit
  · cases List.eq_of_mem_replicate padding
  · obtain ⟨d, -, same⟩ := Numeral.digit_of_mem_toDigits (by decide) digit
    exact Nat.digitChar_ne 'n' (by decide) same.symm

namespace Text

/-- That a text has no first half of a pair right before a second one. -/
def Whole (s : List Char) : Prop :=
  s.IsChain fun c d => (isLead (code c) && isTrail (code d)) = false

instance (s : List Char) : Decidable (Whole s) :=
  inferInstanceAs (Decidable (s.IsChain _))

def units (c : Char) : List Nat :=
  if code c < 0x10000 then [code c]
  else [0xd800 + (code c - 0x10000) / 0x400, 0xdc00 + (code c - 0x10000) % 0x400]

theorem isHalf_iff {n : Nat} : (isLead n || isTrail n) = true ↔ 0xd800 ≤ n ∧ n < 0xe000 := by
  simp only [isLead, isTrail, Bool.or_eq_true, Bool.and_eq_true, decide_eq_true_eq]
  omega

theorem code_cases (c : Char) :
    (0xd800 ≤ code c ∧ code c < 0xe000 ∧ code c + halfShift = c.toNat) ∨
      ((code c < 0xd800 ∨ 0xe000 ≤ code c) ∧ code c < 0x110000 ∧ code c = c.toNat) := by
  have valid : c.toNat < 0xd800 ∨ 0xdfff < c.toNat ∧ c.toNat < 0x110000 := c.valid
  unfold code
  dsimp only
  split
  · next half =>
    obtain ⟨low, high⟩ := isHalf_iff.mp half
    refine .inl ⟨low, high, ?_⟩
    omega
  · exact .inr ⟨by omega, by omega, rfl⟩

theorem ofCode_code (c : Char) : ofCode (code c) = c := by
  unfold ofCode
  rcases code_cases c with ⟨low, high, same⟩ | ⟨other, -, same⟩
  · rw [if_pos (isHalf_iff.mpr ⟨low, high⟩), same, Char.ofNat_toNat]
  · rw [if_neg (fun half => by have := isHalf_iff.mp half; omega), same, Char.ofNat_toNat]

end Text

namespace Json

open Text

theorem joinUnits_cons {n : Nat} {units : List Nat}
    (apart : ∀ m ∈ units.head?, (isLead n && isTrail m) = false) :
    joinUnits (n :: units) = ofCode n :: joinUnits units := by
  cases units with
  | nil => rfl
  | cons m units =>
    rw [joinUnits, apart m rfl]
    rfl

theorem joinUnits_pair {c : Char} (wide : ¬code c < 0x10000) (rest : List Nat) :
    joinUnits (units c ++ rest) = c :: joinUnits rest := by
  obtain ⟨bound, own⟩ : code c < 0x110000 ∧ code c = c.toNat := by
    rcases code_cases c with ⟨-, high, -⟩ | ⟨-, bound, own⟩
    · omega
    · exact ⟨bound, own⟩
  have lead : isLead (0xd800 + (code c - 0x10000) / 0x400) = true := by
    simp only [isLead, Bool.and_eq_true, decide_eq_true_eq]
    omega
  have trail : isTrail (0xdc00 + (code c - 0x10000) % 0x400) = true := by
    simp only [isTrail, Bool.and_eq_true, decide_eq_true_eq]
    omega
  have joined : ofPair (0xd800 + (code c - 0x10000) / 0x400)
      (0xdc00 + (code c - 0x10000) % 0x400) = c := by
    have number : 0x10000 + (0xd800 + (code c - 0x10000) / 0x400 - 0xd800) * 0x400 +
        (0xdc00 + (code c - 0x10000) % 0x400 - 0xdc00) = c.toNat := by omega
    rw [ofPair, number, Char.ofNat_toNat]
  rw [units, if_neg wide, List.cons_append, List.cons_append, joinUnits, lead, trail, joined]
  rfl

theorem joinUnits_units {s : List Char} (whole : Whole s) : joinUnits (s.flatMap units) = s := by
  induction s with
  | nil => rfl
  | cons c s ih =>
    have rest : joinUnits (s.flatMap units) = s := ih whole.tail
    rw [List.flatMap_cons]
    by_cases narrow : code c < 0x10000
    · have apart : ∀ m ∈ (s.flatMap units).head?, (isLead (code c) && isTrail m) = false := by
        cases s with
        | nil => nofun
        | cons d s =>
          have own := (List.isChain_cons_cons.mp whole).1
          intro m first
          rw [List.flatMap_cons, units] at first
          split at first
          · obtain rfl := Option.some.inj first
            exact own
          · -- The first unit of a pair is no second half.
            next wide =>
            obtain rfl := Option.some.inj first
            have high := code_cases d
            simp only [isTrail, Bool.and_eq_false_iff, decide_eq_false_iff_not]
            omega
      rw [units, if_pos narrow, List.singleton_append, joinUnits_cons apart, ofCode_code, rest]
    · rw [joinUnits_pair narrow, rest]

/-! ### Reading escapes -/

theorem hex4?_digitChar {a b c d : Nat} (first : a < 16) (second : b < 16) (third : c < 16)
    (fourth : d < 16) :
    hex4? (Nat.digitChar a) (Nat.digitChar b) (Nat.digitChar c) (Nat.digitChar d) =
      some ((a * 16 + b) * 256 + c * 16 + d) := by
  have digit : ∀ n < 16, (Nat.digitChar n).toNat < 0x80 ∧
      Numeral.digitIn? 16 (Nat.digitChar n) = some n := by decide +kernel
  simp [hex4?, digit a first, digit b second, digit c third, digit d fourth]

theorem stringUnits_unitEscape {n : Nat} (small : n < 0x10000) (rest : List Char) :
    stringUnits (unitEscape n ++ rest) =
      (stringUnits rest).map fun (units, rest) => (n :: units, rest) := by
  have read : hex4? (Nat.digitChar (n / 0x1000)) (Nat.digitChar (n / 0x100 % 16))
      (Nat.digitChar (n / 0x10 % 16)) (Nat.digitChar (n % 16)) = some n := by
    rw [hex4?_digitChar (by omega) (by omega) (by omega) (by omega)]
    exact congrArg some (by omega)
  rw [unitEscape, hexadecimal_four small]
  simp only [List.cons_append, List.nil_append]
  rw [stringUnits, read]

theorem stringUnits_plain {c : Char} (quote : c ≠ '"') (backslash : c ≠ '\\')
    (visible : 0x20 ≤ c.toNat) (rest : List Char) :
    stringUnits (c :: rest) =
      (stringUnits rest).map fun (units, rest) => (c.toNat :: units, rest) := by
  rw [stringUnits, if_neg]
  · exact not_or.mpr ⟨backslash, Nat.not_lt.mpr visible⟩
  · exact quote
  · exact fun a b c d s same => absurd same backslash
  · exact fun d s same => absurd same backslash

theorem stringUnits_escape (c : Char) (rest : List Char) :
    stringUnits (escape c ++ rest) =
      (stringUnits rest).map fun (more, rest) => (units c ++ more, rest) := by
  -- All characters but those beyond the first plane are read as one unit.
  have single {text : List Char} (small : code c < 0x10000)
      (read : stringUnits (text ++ rest) =
        (stringUnits rest).map fun (units, rest) => (code c :: units, rest)) :
      stringUnits (text ++ rest) =
        (stringUnits rest).map fun (more, rest) => (units c ++ more, rest) := by
    rw [units, if_pos small, read]
    rfl
  have short {n : Nat} {e : Char} (own : code c = n) (small : n < 0x10000)
      (read : stringUnits ('\\' :: e :: rest) =
        (stringUnits rest).map fun (units, rest) => (n :: units, rest)) :
      stringUnits (['\\', e] ++ rest) =
        (stringUnits rest).map fun (more, rest) => (units c ++ more, rest) :=
    single (own ▸ small) (own.symm ▸ read)
  unfold escape
  dsimp only
  split
  · next same => exact short (n := 0x22) (by rw [same]; decide) (by decide) (by simp [stringUnits])
  split
  · next same => exact short (n := 0x5c) (by rw [same]; decide) (by decide) (by simp [stringUnits])
  split
  · next same => exact short (n := 0x0a) (by rw [same]; decide) (by decide) (by simp [stringUnits])
  split
  · next same => exact short (n := 0x0d) (by rw [same]; decide) (by decide) (by simp [stringUnits])
  split
  · next same => exact short (n := 0x09) (by rw [same]; decide) (by decide) (by simp [stringUnits])
  split
  · next own => exact short own (by decide) (by simp [stringUnits])
  split
  · next own => exact short own (by decide) (by simp [stringUnits])
  split
  · next quote backslash _ _ _ _ _ shown =>
    have own : code c = c.toNat := by
      rcases code_cases c with ⟨low, -, -⟩ | ⟨-, -, own⟩
      · omega
      · exact own
    exact single (by omega) (by rw [own]; exact stringUnits_plain quote backslash (by omega) rest)
  split
  · next small => exact single small (stringUnits_unitEscape small rest)
  · next wide =>
    have bound : code c < 0x110000 := by
      rcases code_cases c with ⟨-, high, -⟩ | ⟨-, bound, -⟩ <;> omega
    rw [List.append_assoc, stringUnits_unitEscape (by omega), stringUnits_unitEscape (by omega),
      units, if_neg wide]
    cases stringUnits rest <;> rfl

theorem stringUnits_escaped (s rest : List Char) :
    stringUnits (s.flatMap escape ++ '"' :: rest) = .ok (s.flatMap units, rest) := by
  induction s with
  | nil => rfl
  | cons c s ih =>
    rw [List.flatMap_cons, List.append_assoc, stringUnits_escape, ih, List.flatMap_cons]
    rfl

theorem stringBody_string {s : String} (whole : Whole s.toList) (rest : List Char) :
    stringBody (s.toList.flatMap escape ++ '"' :: rest) = .ok (s, rest) := by
  rw [stringBody, stringUnits_escaped]
  show Except.ok (String.ofList (joinUnits (s.toList.flatMap units)), rest) = _
  rw [joinUnits_units whole, String.ofList_toList]

example : (stringBody ((String.ofList [ofCode 0xd83d, ofCode 0xde00]).toList.flatMap escape ++
    ['"'])).toOption =
      some (String.ofList [Char.ofNat 0x1f600], []) := by decide +kernel

/-! ### Words in escaped strings -/

/-- That a text writes a character as it is, or by a backslash and what has no `n` but that of the
line end. -/
def Escapes (c : Char) (text : List Char) : Prop :=
  text = [c] ∨ ∃ tail, text = '\\' :: tail ∧ (tail = ['n'] ∨ 'n' ∉ tail)

theorem exists_of_unitEscape (n : Nat) : ∃ tail, unitEscape n = '\\' :: tail ∧ 'n' ∉ tail := by
  refine ⟨_, rfl, ?_⟩
  intro member
  rcases List.mem_cons.mp member with letter | digit
  · cases letter
  · exact n_not_mem_hexadecimal 4 n digit

theorem escapes (c : Char) : Escapes c (escape c) := by
  have letter (d : Char) (other : 'n' ≠ d) : Escapes c ['\\', d] :=
    .inr ⟨[d], rfl, .inr fun member => other (List.mem_singleton.mp member)⟩
  unfold escape
  extract_lets n
  refine iteInduction (motive := Escapes c) (fun _ => letter '"' (by decide)) fun _ => ?_
  refine iteInduction (motive := Escapes c) (fun _ => letter '\\' (by decide)) fun _ => ?_
  refine iteInduction (motive := Escapes c) (fun _ => .inr ⟨['n'], rfl, .inl rfl⟩) fun _ => ?_
  refine iteInduction (motive := Escapes c) (fun _ => letter 'r' (by decide)) fun _ => ?_
  refine iteInduction (motive := Escapes c) (fun _ => letter 't' (by decide)) fun _ => ?_
  refine iteInduction (motive := Escapes c) (fun _ => letter 'b' (by decide)) fun _ => ?_
  refine iteInduction (motive := Escapes c) (fun _ => letter 'f' (by decide)) fun _ => ?_
  refine iteInduction (motive := Escapes c) (fun _ => .inl rfl) fun _ => ?_
  refine iteInduction (motive := Escapes c) (fun _ => ?_) fun _ => ?_
  · obtain ⟨tail, same, free⟩ := exists_of_unitEscape n
    exact .inr ⟨tail, same, .inr free⟩
  · obtain ⟨first, same, free⟩ := exists_of_unitEscape (0xd800 + (n - 0x10000) / 0x400)
    obtain ⟨second, sames, frees⟩ := exists_of_unitEscape (0xdc00 + (n - 0x10000) % 0x400)
    refine .inr ⟨first ++ '\\' :: second, ?_, .inr ?_⟩
    · rw [same, sames]
      rfl
    · simp [free, frees]

theorem isPrefix_of_escaped {word : List Char} (plain : '\\' ∉ word) {s : List Char}
    (starts : word <+: s.flatMap escape) : word <+: s := by
  refine isPrefix_of_flatMap (fun c => (escapes c).imp_right ?_) starts
  rintro ⟨tail, own, -⟩
  exact ⟨'\\', tail, own, plain⟩

/-- A word that begins with an `n` and stands in a text that was escaped is in the text itself. -/
theorem infix_of_escaped {word : List Char} (plain : '\\' ∉ 'n' :: word) {s : List Char}
    (stands : Stands ('n' :: word) (s.flatMap escape)) : 'n' :: word <:+: s := by
  have others : '\\' ∉ word := fun member => plain (List.mem_cons_of_mem _ member)
  induction s with
  | nil =>
    have none := List.infix_nil.mp stands.isInfix
    cases none
  | cons c s ih =>
    rw [List.flatMap_cons] at stands
    rcases stands.of_append with later | ⟨before, rest, block, free, starts⟩
    · exact (ih later).trans (List.suffix_cons c s).isInfix
    · rcases escapes c with own | ⟨tail, own, escaped⟩
      · rw [own] at block
        cases before with
        | nil =>
          obtain ⟨rfl, rfl⟩ := List.cons.inj block
          exact (List.cons_prefix_cons.mpr ⟨rfl, isPrefix_of_escaped others starts⟩).isInfix
        | cons d before => simp at block
      · rw [own] at block
        cases before with
        | nil => cases (List.cons.inj block).1
        | cons d before =>
          -- Only the escape of a line end holds an `n`, right behind its backslash.
          obtain ⟨rfl, rfl⟩ := List.cons.inj block
          rcases escaped with lineEnd | none
          · cases before with
            | nil => exact absurd rfl free
            | cons => simp at lineEnd
          · exact absurd (List.mem_append_right _ List.mem_cons_self) none

end Json
end Rehearsal
