import Mathlib.Algebra.Group.Nat.Defs
import Rehearsal.Number.Reading

/-! What rounding gives is left alone by rounding again. So an integer that was read as a double is
in the range of doubles, and it is short enough to be written. -/

namespace Rehearsal

namespace Double

theorem nearest_le {num den bound : Nat} (within : num < den * bound) :
    nearest num den ≤ bound := by
  have quotient : num / den < bound := Nat.div_lt_of_lt_mul within
  unfold nearest
  dsimp only
  split
  · omega
  · omega

theorem nearest_mul {den : Nat} (positive : 0 < den) (n : Nat) : nearest (n * den) den = n := by
  simp [nearest, Nat.mul_div_cancel _ positive, positive]

inductive IsRounded : Double → Prop
  | nan : IsRounded nan
  | infinite (negative : Bool) : IsRounded (infinite negative)
  | finite {negative : Bool} {units : Nat} (small : units < limit)
      (whole : Nat.pow 2 (spacing units) ∣ units) : IsRounded (finite negative units)

def bound : Nat := Nat.pow 2 1024

theorem limit_eq : limit = bound * one := by decide +kernel

theorem limit_pos : 0 < limit := by decide +kernel

theorem IsRounded.zero (negative : Bool) : IsRounded (.finite negative 0) :=
  .finite limit_pos (Nat.dvd_zero _)

/-- A number of steps of width `2 ^ k` that is at most `2 ^ 53` is a number of the steps that
doubles of its size lie apart. At `2 ^ 53` the steps get wider, but that number is even. -/
theorem spacing_dvd {steps k : Nat} (few : steps ≤ 2 ^ 53) :
    Nat.pow 2 (spacing (steps * Nat.pow 2 k)) ∣ steps * Nat.pow 2 k := by
  simp only [Nat.pow_eq]
  rcases Nat.eq_zero_or_pos steps with rfl | positive
  · simp
  have some : steps * 2 ^ k ≠ 0 := Nat.ne_of_gt (Nat.mul_pos positive (Nat.two_pow_pos k))
  rcases Nat.lt_or_eq_of_le few with less | rfl
  · have below : steps * 2 ^ k < 2 ^ (53 + k) := by
      rw [Nat.pow_add]
      exact Nat.mul_lt_mul_of_pos_right less (Nat.two_pow_pos k)
    have narrow : spacing (steps * 2 ^ k) ≤ k := by
      have := (Nat.log2_lt some).mpr below
      unfold spacing
      omega
    exact Nat.dvd_trans (Nat.pow_dvd_pow 2 narrow) (Nat.dvd_mul_left ..)
  · rw [← Nat.pow_add, spacing, Nat.log2_two_pow]
    exact Nat.pow_dvd_pow 2 (by omega)

theorem steps_le (num : Nat) {den : Nat} (positive : 0 < den) :
    nearest num (den * Nat.pow 2 (spacing (num / den))) ≤ 2 ^ 53 := by
  simp only [Nat.pow_eq]
  refine nearest_le ?_
  have whole : num / den + 1 ≤ 2 ^ spacing (num / den) * 2 ^ 53 := by
    have bound := Nat.lt_log2_self (n := num / den)
    have wide : 2 ^ ((num / den).log2 + 1) ≤ 2 ^ (spacing (num / den) + 53) :=
      Nat.pow_le_pow_right (by omega) (by unfold spacing; omega)
    rw [Nat.pow_add 2 (spacing _)] at wide
    omega
  calc num < den * (num / den + 1) := Nat.lt_mul_div_succ num positive
    _ ≤ den * (2 ^ spacing (num / den) * 2 ^ 53) := Nat.mul_le_mul_left den whole
    _ = den * 2 ^ spacing (num / den) * 2 ^ 53 := (Nat.mul_assoc ..).symm

theorem IsRounded.ofUnitRatio (negative : Bool) {num den : Nat} (positive : 0 < den) :
    (ofUnitRatio negative num den).IsRounded := by
  have whole := spacing_dvd (steps_le num positive) (k := spacing (num / den))
  unfold Double.ofUnitRatio
  dsimp only
  split
  · next small => exact .finite small whole
  · exact .infinite negative

theorem ofRatio_eq (negative : Bool) (num den : Nat) :
    ofRatio negative num den = ofUnitRatio negative (num * one) den := rfl

theorem IsRounded.ofRatio (negative : Bool) (num : Nat) {den : Nat} (positive : 0 < den) :
    (ofRatio negative num den).IsRounded := by
  rw [ofRatio_eq]
  exact .ofUnitRatio negative positive

theorem ofUnitRatio_of_isRounded {negative : Bool} {units : Nat}
    (rounded : (finite negative units).IsRounded) (sign : Bool) :
    ofUnitRatio sign units 1 = finite sign units := by
  cases rounded with
  | finite small whole =>
    have positive : 0 < Nat.pow 2 (spacing units) := Nat.pow_pos Nat.two_pos
    obtain ⟨steps, same⟩ := whole
    have back : nearest units (Nat.pow 2 (spacing units)) = steps := by
      conv => lhs; arg 1; rw [same, Nat.mul_comm]
      exact nearest_mul positive steps
    unfold ofUnitRatio
    dsimp only
    rw [Nat.div_one, Nat.one_mul, back, Nat.mul_comm, ← same, if_pos small]

theorem eq_of_toInt? {d : Double} {i : Int} (integer : d.toInt? = some i) :
    ∃ negative, d = finite negative (i.natAbs * one) := by
  cases d with
  | finite negative units =>
    unfold toInt? at integer
    dsimp only at integer
    split at integer
    · next exact =>
      refine ⟨negative, ?_⟩
      have size : i.natAbs = units / one := by
        rw [← Option.some.inj integer]
        split
        · rw [Int.natAbs_neg, Int.natAbs_natCast]
        · rw [Int.natAbs_natCast]
      rw [size, Nat.div_mul_cancel (Nat.dvd_of_mod_eq_zero exact)]
    · cases integer
  | _ => cases integer

theorem ofInt?_of_toInt? {d : Double} {i : Int} (rounded : d.IsRounded)
    (integer : d.toInt? = some i) : (ofInt? i).isSome = true := by
  obtain ⟨negative, same⟩ := eq_of_toInt? integer
  rw [same] at rounded
  rw [ofInt?, ofRatio_eq, ofUnitRatio_of_isRounded rounded]
  simp only [finite?, Option.isSome_some]

theorem natAbs_lt_of_toInt? {d : Double} {i : Int} (rounded : d.IsRounded)
    (integer : d.toInt? = some i) : i.natAbs < bound := by
  obtain ⟨negative, same⟩ := eq_of_toInt? integer
  rw [same] at rounded
  cases rounded with
  | finite small _ =>
    rw [limit_eq] at small
    exact Nat.lt_of_mul_lt_mul_right small

end Double

namespace Numeral

open Double (IsRounded)

theorem isRounded_nearestDouble (negative : Bool) (digits : Nat) (exponent : Int) :
    (nearestDouble negative digits exponent).IsRounded := by
  unfold nearestDouble
  dsimp only
  split
  · exact .zero negative
  · split
    · exact .infinite negative
    · split
      · exact .zero negative
      · split
        · exact .ofRatio negative _ Nat.one_pos
        · exact .ofRatio negative _ (Nat.pow_pos (by omega))

theorem isRounded_of_unsigned? {negative : Bool} {s : List Char} {d : Double}
    (read : unsigned? negative s = some d) : d.IsRounded := by
  unfold unsigned? at read
  dsimp only at read
  split at read
  all_goals
    split at read
    · cases read
    · obtain ⟨e, -, same⟩ := Option.bind_eq_some_iff.mp read
      rw [← Option.some.inj same]
      exact isRounded_nearestDouble ..

theorem isRounded_of_double? {s : List Char} {d : Double} (read : double? s = some d) :
    d.IsRounded := by
  obtain ⟨joined, -, read⟩ := Option.bind_eq_some_iff.mp read
  dsimp only at read
  split at read
  · rw [← Option.some.inj read]
    exact .infinite _
  · split at read
    · rw [← Option.some.inj read]
      exact .nan
    · exact isRounded_of_unsigned? read

theorem text?_of_lt {i : Int} {n : Nat} (short : i.natAbs < 10 ^ n) (few : n ≤ maxDigits) :
    (text? i).isSome = true := by
  unfold text?
  generalize maxDigits = digits at few
  have less : i.natAbs < Nat.pow 10 digits :=
    Nat.lt_of_lt_of_le short (Nat.pow_le_pow_right (Nat.succ_pos 9) few)
  rw [if_neg (Nat.not_le.mpr less)]
  rfl

theorem text?_of_lt_bound {i : Int} (small : i.natAbs < Double.bound) :
    (text? i).isSome = true := by
  have wide : Double.bound ≤ 10 ^ 309 := by decide +kernel
  exact text?_of_lt (Nat.lt_of_lt_of_le small wide) (by decide)

end Numeral
end Rehearsal
