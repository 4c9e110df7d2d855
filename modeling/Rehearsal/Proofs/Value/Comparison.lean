import Rehearsal.Proofs.Json.Characters
import Rehearsal.Value.Coercion

/-! Equality and order of values are decided apart from each other, and each has its own special
cases. For scalars both follow from one ordering, that of their texts or that of their numbers, in
which not-a-number has no place: `comparisons_agree`. -/

namespace Rehearsal

/-! ### Orders and orderings -/

namespace Order

def accepts : Order → Ordering → Bool
  | lt, ordering => ordering.isLT
  | le, ordering => ordering.isLE
  | gt, ordering => ordering.isGT
  | ge, ordering => ordering.isGE

def between {α : Type} [LT α] [DecidableLT α] : Order → α → α → Bool
  | lt, x, y => decide (x < y)
  | le, x, y => !decide (y < x)
  | gt, x, y => decide (y < x)
  | ge, x, y => !decide (x < y)

theorem accepts_compareOfLessAndEq {α : Type} [LT α] [DecidableLT α] [DecidableEq α]
    (total : ∀ x y : α, x < y ↔ ¬y < x ∧ x ≠ y) (o : Order) (x y : α) :
    o.accepts (compareOfLessAndEq x y) = o.between x y := by
  unfold compareOfLessAndEq
  by_cases before : x < y
  · have after : ¬y < x := ((total x y).mp before).1
    cases o <;> simp [accepts, between, before, after]
  by_cases same : x = y
  · subst same
    cases o <;> simp [accepts, between, before]
  · have after : y < x := (total y x).mpr ⟨before, Ne.symm same⟩
    cases o <;> simp [accepts, between, before, same, after]

end Order

/-! ### Texts -/

namespace Text

theorem codes_inj {s t : String} : codes s = codes t ↔ s = t := by
  have injective (c d : Char) (same : code c = code d) : c = d := by
    rw [← ofCode_code c, same, ofCode_code]
  rw [codes, codes, List.map_inj_right injective, String.toList_inj]

theorem codes_lt_iff (x y : List Nat) : x < y ↔ ¬y < x ∧ x ≠ y := by
  constructor
  · intro before
    exact ⟨List.lt_asymm before, fun same => List.lt_irrefl y (same ▸ before)⟩
  · rintro ⟨after, other⟩
    by_contra before
    exact other (List.le_antisymm (List.not_lt.mp after) (List.not_lt.mp before))

def ordering (s t : String) : Ordering := compareOfLessAndEq (codes s) (codes t)

variable (s t : String)

theorem ordering_swap : ordering t s = (ordering s t).swap :=
  compareOfLessAndEq_eq_swap_of_lt_iff_not_gt_and_ne codes_lt_iff

theorem ordering_eq_eq_iff : ordering s t = .eq ↔ s = t := by
  rw [← codes_inj]
  unfold ordering compareOfLessAndEq
  split
  · next before => simpa using ((codes_lt_iff _ _).mp before).2
  · split <;> simp_all

theorem ofTexts_eq (o : Order) : o.ofTexts s t = o.accepts (ordering s t) := by
  rw [ordering, Order.accepts_compareOfLessAndEq codes_lt_iff]
  cases o <;> rfl

end Text

/-! ### Numbers -/

namespace Double

def ordering? (m n : Double) : Option Ordering :=
  match m.rank?, n.rank? with
  | some i, some j => some (compareOfLessAndEq i j)
  | _, _ => none

theorem int_lt_iff (i j : Int) : i < j ↔ ¬j < i ∧ i ≠ j := by omega

variable (m n : Double)

theorem ordering?_eq_none_iff : m.ordering? n = none ↔ m.isNaN = true ∨ n.isNaN = true := by
  unfold ordering? isNaN
  cases m.rank? <;> cases n.rank? <;> simp

theorem ordering?_swap : n.ordering? m = (m.ordering? n).map Ordering.swap := by
  unfold ordering?
  cases m.rank? <;> cases n.rank?
  case some.some i j =>
    exact congrArg some (compareOfLessAndEq_eq_swap_of_lt_iff_not_gt_and_ne int_lt_iff)
  all_goals rfl

theorem ofNumbers_eq (o : Order) : o.ofNumbers m n = (m.ordering? n).any o.accepts := by
  have le_eq (i j : Int) : decide (i ≤ j) = !decide (j < i) := by
    rw [← decide_not, decide_eq_decide]
    exact Int.not_lt.symm
  unfold ordering?
  cases first : m.rank? <;> cases second : n.rank?
  case some.some i j =>
    rw [Option.any_some, Order.accepts_compareOfLessAndEq int_lt_iff]
    cases o <;> simp [Order.ofNumbers, lt, le, related, first, second, Order.between, le_eq]
  all_goals cases o <;> simp [Order.ofNumbers, lt, le, related, first, second]

theorem eq_eq : m.eq n = (m.ordering? n == some .eq) := by
  unfold ordering? eq related
  cases m.rank? <;> cases n.rank?
  case some.some i j =>
    have equal : compareOfLessAndEq i j = .eq ↔ i = j := by
      unfold compareOfLessAndEq
      grind
    rw [Bool.eq_iff_iff]
    simp [equal]
  all_goals rfl

end Double

/-! ### Scalars -/

/-- Texts are compared as texts, all other scalars as numbers. -/
def AreTexts (a b : Scalar) : Prop := ∃ s t, a = .str s ∧ b = .str t

structure Compares (a b : Scalar) (ordering : Option Ordering) : Prop where
  order : ∀ o : Order, o.holds (.scalar a) (.scalar b) = .ok (ordering.any o.accepts)
  equality : ∀ p q, Operand.looseEq ⟨.scalar a, p⟩ ⟨.scalar b, q⟩ = .ok (ordering == some .eq)

theorem compares_texts (s t : String) :
    Compares (.str s) (.str t) (some (Text.ordering s t)) where
  order o := congrArg Except.ok (Text.ofTexts_eq s t o)
  equality p q := by
    have same : (s == t) = (some (Text.ordering s t) == some .eq) := by
      rw [Bool.eq_iff_iff]
      simp [Text.ordering_eq_eq_iff]
    exact congrArg Except.ok same

theorem compares_numbers {a b : Scalar} {m n : Double}
    (others : ¬AreTexts a b) (first : (Value.scalar a).number = .ok m)
    (second : (Value.scalar b).number = .ok n) : Compares a b (m.ordering? n) where
  order o := by
    have numbers : o.holds (.scalar a) (.scalar b) = (do
        let m ← (Value.scalar a).number
        let n ← (Value.scalar b).number
        return o.ofNumbers m n) := by
      unfold Order.holds
      split
      · next s t left right =>
        cases left
        cases right
        exact (others ⟨s, t, rfl, rfl⟩).elim
      · rfl
    rw [numbers, first, second, ← Double.ofNumbers_eq]
    rfl
  equality p q := by
    unfold Operand.looseEq
    split
    · next s t left right =>
      cases left
      cases right
      exact (others ⟨s, t, rfl, rfl⟩).elim
    · next left right =>
      cases left
      cases right
      cases first
      cases second
      rfl
    · rw [first, second, ← Double.eq_eq]
      rfl

theorem exists_compares {a b : Scalar} {m n : Double}
    (first : (Value.scalar a).number = .ok m) (second : (Value.scalar b).number = .ok n) :
    ∃ ordering : Option Ordering, Compares a b ordering ∧
      Compares b a (ordering.map Ordering.swap) ∧
      (ordering = none ↔ ¬AreTexts a b ∧ (m.isNaN = true ∨ n.isNaN = true)) := by
  by_cases texts : AreTexts a b
  · obtain ⟨s, t, rfl, rfl⟩ := texts
    refine ⟨some (Text.ordering s t), compares_texts s t, ?_, ?_⟩
    · rw [Option.map_some, ← Text.ordering_swap]
      exact compares_texts t s
    · exact ⟨nofun, fun none => (none.1 ⟨s, t, rfl, rfl⟩).elim⟩
  · have swapped : ¬AreTexts b a := by
      rintro ⟨t, s, later, earlier⟩
      exact texts ⟨s, t, earlier, later⟩
    refine ⟨m.ordering? n, compares_numbers texts first second, ?_, ?_⟩
    · rw [← Double.ordering?_swap]
      exact compares_numbers swapped second first
    · rw [Double.ordering?_eq_none_iff]
      exact (and_iff_right texts).symm

/-- Two scalars that count as numbers, or are both texts, are ordered in exactly one way: the first
stands before the second, they are equal, or it stands after it. All comparisons of the two, in both
directions, say which. If one of them is not a number, and they are not both texts, no comparison
holds. -/
theorem comparisons_agree (a b : Scalar) (p q : Option String) {m n : Double}
    (first : (Value.scalar a).number = .ok m) (second : (Value.scalar b).number = .ok n) :
    ∃ before same after : Bool,
      (Order.lt.holds (.scalar a) (.scalar b) = .ok before ∧
        Order.gt.holds (.scalar b) (.scalar a) = .ok before) ∧
      (Operand.looseEq ⟨.scalar a, p⟩ ⟨.scalar b, q⟩ = .ok same ∧
        Operand.looseEq ⟨.scalar b, q⟩ ⟨.scalar a, p⟩ = .ok same) ∧
      (Order.gt.holds (.scalar a) (.scalar b) = .ok after ∧
        Order.lt.holds (.scalar b) (.scalar a) = .ok after) ∧
      (Order.le.holds (.scalar a) (.scalar b) = .ok (before || same) ∧
        Order.ge.holds (.scalar b) (.scalar a) = .ok (before || same)) ∧
      (Order.ge.holds (.scalar a) (.scalar b) = .ok (after || same) ∧
        Order.le.holds (.scalar b) (.scalar a) = .ok (after || same)) ∧
      (AreTexts a b ∨ m.isNaN = false ∧ n.isNaN = false →
        [before, same, after].count true = 1) ∧
      (¬AreTexts a b → m.isNaN = true ∨ n.isNaN = true →
        [before, same, after].count true = 0) := by
  obtain ⟨ordering, forth, back, unordered⟩ := exists_compares first second
  refine ⟨ordering.any Order.lt.accepts, ordering == some .eq, ordering.any Order.gt.accepts, ?_⟩
  cases ordering with
  | none =>
    obtain ⟨others, nan⟩ := unordered.mp rfl
    refine ⟨⟨forth.order .lt, back.order .gt⟩, ⟨forth.equality p q, back.equality q p⟩,
      ⟨forth.order .gt, back.order .lt⟩, ⟨forth.order .le, back.order .ge⟩,
      ⟨forth.order .ge, back.order .le⟩, fun numbers => ?_, fun _ _ => rfl⟩
    have number := numbers.resolve_left others
    rw [number.1, number.2] at nan
    cases nan <;> contradiction
  | some o =>
    have ordered : ¬(¬AreTexts a b ∧ (m.isNaN = true ∨ n.isNaN = true)) :=
      fun none => nomatch unordered.mpr none
    cases o
    all_goals
      exact ⟨⟨forth.order .lt, back.order .gt⟩, ⟨forth.equality p q, back.equality q p⟩,
        ⟨forth.order .gt, back.order .lt⟩, ⟨forth.order .le, back.order .ge⟩,
        ⟨forth.order .ge, back.order .le⟩, fun _ => rfl,
        fun others nan => (ordered ⟨others, nan⟩).elim⟩

/-- An integer between two doubles is equal to the nearer one, and so not greater. -/
theorem comparisons_agree_rounded :
    let number : Double := .finite false (9007199254740992 * Double.one)
    (Value.int 9007199254740993).number = .ok number ∧ (Value.float number).number = .ok number ∧
      Operand.looseEq ⟨.float number, none⟩ ⟨.int 9007199254740993, none⟩ = .ok true ∧
      Order.le.holds (.int 9007199254740993) (.float number) = .ok true ∧
      Order.gt.holds (.int 9007199254740993) (.float number) = .ok false := by
  intro number
  have rounded : Double.ofInt? 9007199254740993 = some number := by decide +kernel
  have first : (Value.int 9007199254740993).number = .ok number := by
    rw [Value.number, rounded]
    rfl
  have second : (Value.float number).number = .ok number := rfl
  have equal : (number.ordering? number == some .eq) = true := by decide +kernel
  obtain ⟨before, same, after, -, ⟨forth, back⟩, ⟨greater, -⟩, ⟨least, -⟩, -, one, -⟩ :=
    comparisons_agree (.int 9007199254740993) (.float number) none none first second
  have others : ¬AreTexts (.float number) (.int 9007199254740993) := by
    rintro ⟨s, t, text, -⟩
    cases text
  have loose : Operand.looseEq ⟨.float number, none⟩ ⟨.int 9007199254740993, none⟩ = .ok true := by
    rw [(compares_numbers others second first).equality, equal]
  obtain rfl : same = true := Except.ok.inj (back.symm.trans loose)
  have none_else : before = false ∧ after = false := by
    have once := one (.inr ⟨rfl, rfl⟩)
    cases before <;> cases after <;> simp_all
  rw [none_else.2] at greater
  rw [Bool.or_true] at least
  exact ⟨first, second, loose, least, greater⟩

end Rehearsal
