import Mathlib.Data.List.Infix
import Rehearsal.Proofs.Text.Cut

/-! Two words of one length are replaced in either order with the same result if no end of one is a
start of the other where they stand in the text, and if what replaces them has none of their
characters: `replaceAll_comm`. -/

namespace Rehearsal.Text

/-- That the words `a` and `b` stand in a text with a place in common, `b` not before `a`. -/
def Overlap (a b s : List Char) : Prop := ∃ n < a.length, a.drop n <+: b ∧ a.take n ++ b <:+: s

instance (a b s : List Char) : Decidable (Overlap a b s) := by unfold Overlap; infer_instance

variable {pattern replacement a b w s t : List Char} {c : Char}

theorem Overlap.of_isInfix (overlap : Overlap a b s) (inside : s <:+: t) : Overlap a b t := by
  obtain ⟨n, short, ends, stands⟩ := overlap
  exact ⟨n, short, ends, stands.trans inside⟩

theorem Overlap.of_replaceAll (written : replacement ≠ []) (first : ∀ c ∈ replacement, c ∉ a)
    (second : ∀ c ∈ replacement, c ∉ b) (overlap : Overlap a b (replaceAll pattern replacement s)) :
    Overlap a b s := by
  obtain ⟨n, short, ends, stands⟩ := overlap
  refine ⟨n, short, ends, isInfix_of_replaceAll written ?_ stands⟩
  intro c member inside
  rcases List.mem_append.mp inside with left | right
  · exact first c member (List.mem_of_mem_take left)
  · exact second c member right

/-! ### Replacements from the start of a text -/

theorem replaceFrom_append (pattern replacement w s : List Char) :
    replaceFrom pattern replacement w.length (w ++ s) = replaceAll pattern replacement s := by
  induction w with
  | nil => rfl
  | cons c w ih => exact ih

theorem replaceAll_append_self (nonempty : pattern ≠ []) (s : List Char) :
    replaceAll pattern replacement (pattern ++ s) =
      replacement ++ replaceAll pattern replacement s := by
  cases pattern with
  | nil => exact absurd rfl nonempty
  | cons c pattern =>
    have found := after?_append (c :: pattern) s
    rw [List.cons_append] at found
    rw [replaceAll, List.cons_append, replaceFrom, found]
    dsimp only
    rw [List.length_cons, Nat.add_one_sub_one, replaceFrom_append]

theorem replaceAll_cons (other : ¬pattern <+: c :: s) :
    replaceAll pattern replacement (c :: s) = c :: replaceAll pattern replacement s := by
  rw [replaceAll, replaceFrom, after?_eq_none other]
  rfl

theorem replaceAll_singleton (c : Char) (replacement s : List Char) :
    replaceAll [c] replacement s = s.flatMap fun d => if d = c then replacement else [d] := by
  induction s with
  | nil => rfl
  | cons d s ih =>
    rw [List.flatMap_cons, ← ih]
    by_cases same : d = c
    · rw [if_pos same, same]
      exact replaceAll_append_self (List.cons_ne_nil c []) s
    · rw [if_neg same, List.singleton_append]
      apply replaceAll_cons
      intro starts
      exact same (List.cons_prefix_cons.mp starts).1.symm

theorem replaceAll_append
    (none : ∀ before rest, w = before ++ rest → rest ≠ [] → ¬pattern <+: rest ++ s) :
    replaceAll pattern replacement (w ++ s) = w ++ replaceAll pattern replacement s := by
  induction w with
  | nil => rfl
  | cons c w ih =>
    have first := none [] (c :: w) rfl (List.cons_ne_nil c w)
    have later := ih fun before rest same => none (c :: before) rest (by rw [same]; rfl)
    rw [List.cons_append] at first ⊢
    rw [replaceAll_cons first, later]
    rfl

theorem replaceAll_append_of_disjoint (nonempty : pattern ≠ []) (other : ∀ c ∈ w, c ∉ pattern) :
    replaceAll pattern replacement (w ++ s) = w ++ replaceAll pattern replacement s := by
  apply replaceAll_append
  intro before rest same some starts
  cases rest with
  | nil => exact some rfl
  | cons c rest =>
    cases pattern with
    | nil => exact nonempty rfl
    | cons d pattern =>
      obtain ⟨rfl, -⟩ := List.cons_prefix_cons.mp starts
      exact other d (by simp [same]) List.mem_cons_self

theorem replaceAll_append_of_apart (level : a.length = b.length)
    (apart : ¬Overlap a b (a ++ s)) :
    replaceAll b replacement (a ++ s) = a ++ replaceAll b replacement s := by
  apply replaceAll_append
  intro before rest same some starts
  have shorter : rest.length ≤ b.length := by
    rw [← level, same, List.length_append]
    omega
  obtain ⟨more, own⟩ : rest <+: b :=
    List.prefix_of_prefix_length_le (List.prefix_append rest s) starts shorter
  refine apart ⟨before.length, ?_, ?_, ?_⟩
  · rw [same, List.length_append]
    have positive := List.length_pos_of_ne_nil some
    omega
  · rw [same, List.drop_left]
    exact ⟨more, own⟩
  · rw [same, List.take_left, List.append_assoc]
    exact ((List.prefix_append_right_inj before).mpr starts).isInfix

/-! ### Two words -/

theorem replaceAll_comm_of_start (second : ∀ c ∈ replacement, c ∉ b) (other : a ≠ b)
    (level : a.length = b.length) (apart : ¬Overlap a b (a ++ s))
    (later : replaceAll b replacement (replaceAll a replacement s) =
      replaceAll a replacement (replaceAll b replacement s)) :
    replaceAll b replacement (replaceAll a replacement (a ++ s)) =
      replaceAll a replacement (replaceAll b replacement (a ++ s)) := by
  have nonempty : a ≠ [] := by
    rintro rfl
    exact other (List.length_eq_zero_iff.mp level.symm).symm
  have nonempty' : b ≠ [] := by
    rintro rfl
    exact other (List.length_eq_zero_iff.mp level)
  calc replaceAll b replacement (replaceAll a replacement (a ++ s))
      = replaceAll b replacement (replacement ++ replaceAll a replacement s) := by
        rw [replaceAll_append_self nonempty]
    _ = replacement ++ replaceAll b replacement (replaceAll a replacement s) :=
        replaceAll_append_of_disjoint nonempty' second
    _ = replacement ++ replaceAll a replacement (replaceAll b replacement s) := by rw [later]
    _ = replaceAll a replacement (a ++ replaceAll b replacement s) :=
        (replaceAll_append_self nonempty _).symm
    _ = replaceAll a replacement (replaceAll b replacement (a ++ s)) := by
        rw [replaceAll_append_of_apart level apart]

section

variable (written : replacement ≠ []) (first : ∀ c ∈ replacement, c ∉ a)
  (second : ∀ c ∈ replacement, c ∉ b)
include written second

theorem replaceAll_replaceAll_cons (left : ¬a <+: c :: s) (right : ¬b <+: c :: s) :
    replaceAll b replacement (replaceAll a replacement (c :: s)) =
      c :: replaceAll b replacement (replaceAll a replacement s) := by
  rw [replaceAll_cons left]
  apply replaceAll_cons
  intro starts
  rw [← replaceAll_cons left] at starts
  exact right (isPrefix_of_replaceFrom written second starts).1

include first

/-- Words that do not overlap are replaced in either order. The induction is on the length of the
text, of which a whole word is taken off at a time. -/
theorem replaceAll_comm (level : a.length = b.length)
    (apart : a ≠ b → ¬Overlap a b s ∧ ¬Overlap b a s) :
    replaceAll b replacement (replaceAll a replacement s) =
      replaceAll a replacement (replaceAll b replacement s) := by
  by_cases other : a = b
  · rw [other]
  have filled : 0 < a.length := by
    by_contra none
    apply other
    rw [List.length_eq_zero_iff.mp (by omega : a.length = 0),
      List.length_eq_zero_iff.mp (by omega : b.length = 0)]
  induction length : s.length using Nat.strong_induction_on generalizing s with
  | h n ih =>
    have later (t : List Char) (inside : t <:+: s) (shorter : t.length < s.length) :
        replaceAll b replacement (replaceAll a replacement t) =
          replaceAll a replacement (replaceAll b replacement t) := by
      apply ih t.length (length ▸ shorter) _ rfl
      intro distinct
      obtain ⟨left, right⟩ := apart distinct
      exact ⟨fun overlap => left (overlap.of_isInfix inside),
        fun overlap => right (overlap.of_isInfix inside)⟩
    by_cases left : a <+: s
    · obtain ⟨t, rfl⟩ := left
      apply replaceAll_comm_of_start second other level (apart other).1
      apply later t (List.suffix_append a t).isInfix
      rw [List.length_append]
      omega
    by_cases right : b <+: s
    · obtain ⟨t, rfl⟩ := right
      apply Eq.symm
      apply replaceAll_comm_of_start first (Ne.symm other) level.symm (apart other).2
      apply Eq.symm
      apply later t (List.suffix_append b t).isInfix
      rw [List.length_append]
      omega
    · cases s with
      | nil => rfl
      | cons c s =>
        rw [replaceAll_replaceAll_cons written second left right,
          replaceAll_replaceAll_cons written first right left]
        congr 1
        exact later s (List.suffix_cons c s).isInfix (Nat.lt_succ_self _)

end

end Rehearsal.Text
