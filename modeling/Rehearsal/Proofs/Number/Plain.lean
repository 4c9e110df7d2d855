import Mathlib.Algebra.Group.Nat.Defs
import Rehearsal.Number.Reading
import Rehearsal.Proofs.Text.Standing

/-! A numeral of decimal digits, with an optional sign before and an optional fraction after them,
can always be read: `double?_of_isPlain`. An integer that is not too long is read from its decimal
digits as it was: `integer?_toDigits`. -/

namespace Rehearsal

open Text

/-- A nonempty text of decimal digits. -/
structure Text.IsDigits (s : List Char) : Prop where
  nonempty : s ≠ []
  decimal : ∀ c ∈ s, isDecimalDigit c = true

namespace Numeral

/-- Digits with an optional fraction after them. -/
inductive IsUnsigned : List Char → Prop
  | whole {digits : List Char} (own : IsDigits digits) : IsUnsigned digits
  | fraction {digits places : List Char} (own : IsDigits digits) (further : IsDigits places) :
      IsUnsigned (digits ++ '.' :: places)

/-- An unsigned numeral with an optional minus sign before it. -/
inductive IsPlain : List Char → Prop
  | positive {s : List Char} (own : IsUnsigned s) : IsPlain s
  | negative {s : List Char} (own : IsUnsigned s) : IsPlain ('-' :: s)

/-! ### The characters of a numeral -/

theorem isBlank_of_digit {c : Char} (digit : isDecimalDigit c = true) : isBlank c = false := by
  unfold isDecimalDigit digitValue? at digit
  rw [Option.isSome_map, List.find?_isSome] at digit
  obtain ⟨first, member, within⟩ := digit
  have apart : ∀ first ∈ digitZeros, ∀ k < 10, isBlank (Char.ofNat (first + k)) = false := by
    decide +kernel
  simp only [Bool.and_eq_true, decide_eq_true_eq] at within
  have same : Char.ofNat (first + (c.toNat - first)) = c := by
    rw [Nat.add_sub_cancel' within.1, Char.ofNat_toNat]
  rw [← same]
  exact apart first member _ (by omega)

theorem IsUnsigned.chars {s : List Char} (numeral : IsUnsigned s) :
    ∀ c ∈ s, c = '.' ∨ isDecimalDigit c = true := by
  intro c member
  cases numeral with
  | whole own => exact .inr (own.decimal c member)
  | fraction own further =>
    rcases List.mem_append.mp member with first | member
    · exact .inr (own.decimal c first)
    · rcases List.mem_cons.mp member with point | place
      · exact .inl point
      · exact .inr (further.decimal c place)

theorem IsPlain.chars {s : List Char} (plain : IsPlain s) :
    ∀ c ∈ s, c = '-' ∨ c = '.' ∨ isDecimalDigit c = true := by
  intro c member
  cases plain with
  | positive own => exact .inr (own.chars c member)
  | negative own => exact (List.mem_cons.mp member).imp_right (own.chars c)

theorem IsPlain.not_mem {s : List Char} (plain : IsPlain s) {c : Char}
    (other : c ≠ '-' ∧ c ≠ '.' ∧ isDecimalDigit c = false) : c ∉ s := by
  intro member
  rcases plain.chars c member with sign | point | digit
  · exact other.1 sign
  · exact other.2.1 point
  · rw [other.2.2] at digit
    cases digit

theorem IsPlain.trim_eq {s : List Char} (plain : IsPlain s) : trim s = s := by
  have visible : ∀ c ∈ s, isBlank c = false := by
    intro c member
    rcases plain.chars c member with rfl | rfl | digit
    · decide
    · decide
    · exact isBlank_of_digit digit
  exact trim_eq_self (fun c first => visible c (List.mem_of_head? first))
    fun c last => visible c (List.mem_of_getLast? last)

theorem joinDigits?_eq (afterDigit : Bool) {s : List Char} (free : '_' ∉ s) :
    joinDigits? afterDigit s = some s := by
  induction s generalizing afterDigit with
  | nil => rfl
  | cons c s ih =>
    obtain ⟨other, free⟩ := not_or.mp (mt List.mem_cons.mpr free)
    rw [joinDigits?, ih _ free]
    · rfl
    · exact fun same => other same.symm

/-! ### Reading digits -/

theorem takeDigits_append {digits : List Char} (own : IsDigits digits) (rest : List Char)
    (ends : ∀ c ∈ rest.head?, isDecimalDigit c = false) :
    ∃ first values, takeDigits (digits ++ rest) = (first :: values, rest) := by
  obtain ⟨nonempty, decimal⟩ := own
  induction digits with
  | nil => exact absurd rfl nonempty
  | cons c digits ih =>
    rw [List.forall_mem_cons] at decimal
    obtain ⟨value, digit⟩ := Option.isSome_iff_exists.mp decimal.1
    rw [List.cons_append, takeDigits, digit]
    cases digits with
    | nil =>
      refine ⟨value, [], ?_⟩
      cases rest with
      | nil => rfl
      | cons d rest =>
        have other : digitValue? d = none := by simpa [isDecimalDigit] using ends d rfl
        simp [takeDigits, other]
    | cons d digits =>
      obtain ⟨first, values, same⟩ := ih nofun decimal.2
      exact ⟨value, first :: values, by rw [same]⟩

theorem unsigned?_of_isUnsigned (negative : Bool) {s : List Char} (numeral : IsUnsigned s) :
    (unsigned? negative s).isSome = true := by
  cases numeral with
  | whole own =>
    obtain ⟨first, values, same⟩ := takeDigits_append own [] nofun
    rw [List.append_nil] at same
    simp [unsigned?, same, exponent?]
  | @fraction digits places own further =>
    have point : ∀ c ∈ ('.' :: places).head?, isDecimalDigit c = false := by
      rintro c ⟨⟩
      decide
    obtain ⟨first, values, same⟩ := takeDigits_append own ('.' :: places) point
    obtain ⟨place, more, rest⟩ := takeDigits_append further [] nofun
    rw [List.append_nil] at rest
    simp [unsigned?, same, rest, exponent?]

theorem takeSign_of_isUnsigned {s : List Char} (numeral : IsUnsigned s) :
    takeSign s = (false, s) := by
  have unsigned : ∀ c ∈ s, c ≠ '-' ∧ c ≠ '+' := by
    intro c member
    constructor
    all_goals
      rintro rfl
      exact absurd (numeral.chars _ member) (by decide)
  unfold takeSign
  split
  · exact absurd rfl (unsigned _ List.mem_cons_self).1
  · exact absurd rfl (unsigned _ List.mem_cons_self).2
  · rfl

theorem double?_of_isPlain {s : List Char} (plain : IsPlain s) : (double? s).isSome = true := by
  have joined : joinDigits? false (trim s) = some s := by
    rw [plain.trim_eq]
    exact joinDigits?_eq _ (plain.not_mem (by decide))
  have read : (unsigned? (takeSign s).1 (takeSign s).2).isSome = true := by
    cases plain with
    | positive own =>
      rw [takeSign_of_isUnsigned own]
      exact unsigned?_of_isUnsigned _ own
    | negative own => exact unsigned?_of_isUnsigned _ own
  unfold double?
  rw [joined]
  simp only [Option.bind_eq_bind, Option.bind_some]
  split
  · rfl
  · split
    · rfl
    · exact read

/-! ### Integers that are written -/

theorem digit_of_mem_toDigits {base n : Nat} (valid : 1 < base) {c : Char}
    (member : c ∈ Nat.toDigits base n) : ∃ d < base, c = Nat.digitChar d := by
  rw [Nat.toDigits_eq_if valid] at member
  split at member
  · next small => exact ⟨n, small, List.mem_singleton.mp member⟩
  · next large =>
    rcases List.mem_append.mp member with before | last
    · have shorter : n / base < n := Nat.div_lt_self (by omega) valid
      exact digit_of_mem_toDigits valid before
    · exact ⟨n % base, Nat.mod_lt _ (by omega), List.mem_singleton.mp last⟩
termination_by n

theorem digits_of_toDigits (n : Nat) : ∃ digits, (Nat.toDigits 10 n).mapM (digitIn? 10) =
    some digits ∧ numeral 10 digits = n ∧ digits.length = (Nat.toDigits 10 n).length := by
  have digit : ∀ d < 10, digitIn? 10 (Nat.digitChar d) = some d := by decide +kernel
  rw [Nat.toDigits_eq_if (by decide)]
  split
  · next small => exact ⟨[n], by simp [digit n small], by simp [numeral], rfl⟩
  · obtain ⟨digits, read, value, length⟩ := digits_of_toDigits (n / 10)
    refine ⟨digits ++ [n % 10], ?_, ?_, ?_⟩
    · simp [List.mapM_append, read, digit (n % 10) (by omega)]
    · rw [numeral, List.foldl_append, ← numeral, value]
      simp only [List.foldl_cons, List.foldl_nil]
      omega
    · rw [List.length_append, List.length_append, length]
      rfl
termination_by n
decreasing_by omega

theorem isDigits_toDigits (n : Nat) : IsDigits (Nat.toDigits 10 n) where
  nonempty := by
    rw [Nat.toDigits_eq_if (by decide)]
    split <;> simp
  decimal := by
    have digit : ∀ d < 10, isDecimalDigit (Nat.digitChar d) = true := by decide +kernel
    intro c member
    obtain ⟨d, small, rfl⟩ := digit_of_mem_toDigits (by decide) member
    exact digit d small

theorem dropBaseMark_ten (s : List Char) : dropBaseMark 10 s = s := by
  unfold dropBaseMark
  split
  · simp
  · rfl

theorem integer?_toDigits {n : Nat} (short : n < 10 ^ maxDigits) :
    integer? 10 (Nat.toDigits 10 n) = some (n : Int) := by
  have own := isDigits_toDigits n
  have plain := IsPlain.positive (.whole own)
  have joined := joinDigits?_eq false (plain.not_mem (c := '_') (by decide))
  obtain ⟨digits, read, value, length⟩ := digits_of_toDigits n
  have few : ¬maxDigits < digits.length := by
    rw [length, Nat.not_lt]
    exact (Nat.length_toDigits_le_iff (by decide) (by decide)).mpr short
  have nonempty : digits ≠ [] := by
    rintro rfl
    exact own.nonempty (List.length_eq_zero_iff.mp length.symm)
  rw [integer?, plain.trim_eq, takeSign_of_isUnsigned (.whole own)]
  simp only [dropBaseMark_ten, joined, read, Option.bind_eq_bind, Option.bind_some]
  rw [if_neg (by simp [nonempty, few]), value]
  rfl

theorem text?_eq {i : Int} (short : i.natAbs < 10 ^ maxDigits) : text? i = some (String.ofList
    (if i < 0 then '-' :: Nat.toDigits 10 i.natAbs else Nat.toDigits 10 i.natAbs)) := by
  unfold text?
  generalize maxDigits = digits at short
  exact if_neg (Nat.not_le.mpr short)

end Numeral
end Rehearsal
