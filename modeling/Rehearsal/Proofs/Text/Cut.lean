import Mathlib.Data.List.Basic
import Rehearsal.Proofs.Text.Standing
import Rehearsal.Text.Piece
import Rehearsal.Text.Search

/-! What cutting a text gives if its first part is found or holds nothing that is found, and where
the first occurrence of a pattern lies. A word that has no character of the replacement stands in a
text after a replacement only where it stood before, and the pattern itself stands nowhere any more:
`exists_of_isInfix_replaceFrom`. The lines of a text, joined by line feeds, are the text again
(`intercalate_lines`), and nothing else has these lines (`lines_intercalate`). -/

namespace Rehearsal.Text

/-! ### Cutting at a character -/

section

variable {separator : Char} {before : List Char}

theorem cutAt?_append (whole : separator ∉ before) (rest : List Char) :
    cutAt? separator (before ++ separator :: rest) = some (before, rest) := by
  induction before with
  | nil => exact if_pos rfl
  | cons c before ih =>
    rw [List.mem_cons, not_or] at whole
    rw [List.cons_append, cutAt?, if_neg (Ne.symm whole.1), ih whole.2]
    rfl

theorem cutAt?_of_not_mem (whole : separator ∉ before) : cutAt? separator before = none := by
  induction before with
  | nil => rfl
  | cons c before ih =>
    rw [List.mem_cons, not_or] at whole
    rw [cutAt?, if_neg (Ne.symm whole.1), ih whole.2]
    rfl

theorem splitOn_eq (separator : Char) (s : List Char) :
    splitOn separator s = s.splitOn separator := by
  induction s with
  | nil => exact (List.splitOn_nil separator).symm
  | cons c s ih =>
    rw [splitOn, List.splitOn_cons_eq_if_modifyHead, ← ih]
    by_cases same : c = separator
    · simp [same]
    · have nonempty : splitOn separator s ≠ [] := ih ▸ List.splitOn_ne_nil separator s
      obtain ⟨part, parts, split⟩ := List.exists_cons_of_ne_nil nonempty
      simp [same, split]

theorem splitOn_append (whole : separator ∉ before) (rest : List Char) :
    splitOn separator (before ++ separator :: rest) = before :: splitOn separator rest := by
  rw [splitOn_eq, splitOn_eq, List.splitOn_append_cons_self_of_not_mem whole]

theorem splitOn_of_not_mem (whole : separator ∉ before) :
    splitOn separator before = [before] := by
  rw [splitOn_eq, List.splitOn_eq_singleton whole]

end

variable {length? : List Char → Option Nat} {w s : List Char}

/-! ### Cuts -/

theorem cutFrom_append (length? : List Char → Option Nat) (w s : List Char) :
    cutFrom length? w.length (w ++ s) = cut length? s := by
  induction w with
  | nil => rfl
  | cons c w ih => exact ih

theorem cut_append_of_found (nonempty : w ≠ []) (found : length? (w ++ s) = some w.length) :
    cut length? (w ++ s) = .found w :: cut length? s := by
  cases w with
  | nil => exact absurd rfl nonempty
  | cons c w =>
    have taken : (c :: (w ++ s)).take (c :: w).length = c :: w := List.take_left
    rw [List.cons_append] at found ⊢
    rw [cut, cutFrom, found]
    dsimp only
    rw [taken, List.length_cons, Nat.add_one_sub_one, cutFrom_append]

theorem cut_append_of_none
    (none : ∀ before rest, w = before ++ rest → rest ≠ [] → length? (rest ++ s) = none) :
    cut length? (w ++ s) = w.map .plain ++ cut length? s := by
  induction w with
  | nil => rfl
  | cons c w ih =>
    have first := none [] (c :: w) rfl nofun
    have later := ih fun before rest same => none (c :: before) rest (by rw [same]; rfl)
    rw [List.cons_append] at first ⊢
    rw [cut, cutFrom, first]
    exact congrArg (.plain c :: ·) later

/-- Nothing that is found reaches into the last part or starts there. The induction skips what
belongs to a part that was found. -/
theorem cutFrom_append_plain (same : ∀ rest, rest ≠ [] → length? (rest ++ w) = length? rest)
    (within : ∀ rest n, length? rest = some n → n ≤ rest.length)
    (none : ∀ before rest, w = before ++ rest → rest ≠ [] → length? rest = none) {skip : Nat}
    (inside : skip ≤ s.length) :
    cutFrom length? skip (s ++ w) = cutFrom length? skip s ++ w.map .plain := by
  induction s generalizing skip with
  | nil =>
    obtain rfl : skip = 0 := Nat.le_zero.mp inside
    have plain := @cut_append_of_none length? w [] fun before rest own some => by
      rw [List.append_nil]
      exact none before rest own some
    rw [List.append_nil] at plain
    exact plain.trans (List.append_nil _)
  | cons c s ih =>
    cases skip with
    | succ skip => exact ih (Nat.le_of_succ_le_succ inside)
    | zero =>
      have start := same (c :: s) (List.cons_ne_nil c s)
      rw [List.cons_append] at start ⊢
      rw [cutFrom, cutFrom, start]
      cases found : length? (c :: s) with
      | none => exact congrArg (.plain c :: ·) (ih (Nat.zero_le _))
      | some n =>
        have bound : n ≤ (c :: s).length := within _ n found
        have taken : (c :: s ++ w).take n = (c :: s).take n := List.take_append_of_le_length bound
        rw [List.cons_append] at taken
        dsimp only
        rw [taken, ih (by rw [List.length_cons] at bound; omega)]
        rfl

theorem cut_append_plain (same : ∀ rest, rest ≠ [] → length? (rest ++ w) = length? rest)
    (within : ∀ rest n, length? rest = some n → n ≤ rest.length)
    (none : ∀ before rest, w = before ++ rest → rest ≠ [] → length? rest = none) (s : List Char) :
    cut length? (s ++ w) = cut length? s ++ w.map .plain :=
  cutFrom_append_plain same within none (Nat.zero_le _)

/-! ### Occurrences -/

theorem after?_eq_none (other : ¬w <+: s) : after? w s = none := by
  cases found : after? w s with
  | none => rfl
  | some rest => exact absurd ⟨rest, (after?_eq_some found).symm⟩ other

theorem splitAt?_append {pattern : List Char}
    (first : ∀ before rest, w = before ++ rest → rest ≠ [] → ¬pattern <+: rest ++ (pattern ++ s)) :
    splitAt? pattern (w ++ (pattern ++ s)) = some (w, s) := by
  induction w with
  | nil =>
    cases pattern with
    | nil =>
      cases s with
      | nil => rfl
      | cons c s => rfl
    | cons c pattern =>
      rw [List.nil_append, List.cons_append, splitAt?, ← List.cons_append, after?_append]
  | cons c w ih =>
    have absent := after?_eq_none (first [] (c :: w) rfl (List.cons_ne_nil c w))
    have later := ih fun before rest same => first (c :: before) rest (by rw [same]; rfl)
    rw [List.cons_append] at absent ⊢
    rw [splitAt?, absent, later]
    rfl

theorem occurs_of_isInfix {pattern : List Char} (inside : pattern <:+: s) :
    occurs pattern s = true := by
  unfold occurs
  induction s with
  | nil =>
    rw [splitAt?, if_pos (List.infix_nil.mp inside)]
    rfl
  | cons c s ih =>
    rw [splitAt?]
    split
    · rfl
    · next absent =>
      rw [Option.isSome_map]
      rcases List.infix_cons_iff.mp inside with ⟨rest, starts⟩ | later
      · rw [← starts, after?_append] at absent
        cases absent
      · exact ih later

/-! ### Replacements -/

variable {pattern replacement word : List Char}

section

variable (written : replacement ≠ []) (apart : ∀ c ∈ replacement, c ∉ word)
include written apart

theorem isPrefix_of_replaceFrom (starts : word <+: replaceFrom pattern replacement 0 s) :
    word <+: s ∧ (word ≠ [] → ¬pattern <+: s) := by
  induction s generalizing word with
  | nil => exact ⟨starts, fun nonempty => absurd (List.prefix_nil.mp starts) nonempty⟩
  | cons c s ih =>
    cases word with
    | nil => exact ⟨List.nil_prefix, fun nonempty => absurd rfl nonempty⟩
    | cons d word =>
      have later : ∀ c ∈ replacement, c ∉ word :=
        fun c member inside => apart c member (List.mem_cons_of_mem _ inside)
      rw [replaceFrom] at starts
      split at starts
      · cases replacement with
        | nil => exact absurd rfl written
        | cons first rest =>
          obtain ⟨rfl, -⟩ := List.cons_prefix_cons.mp starts
          exact absurd List.mem_cons_self (apart d List.mem_cons_self)
      · next absent =>
        obtain ⟨rfl, rest⟩ := List.cons_prefix_cons.mp starts
        refine ⟨List.cons_prefix_cons.mpr ⟨rfl, (ih later rest).1⟩, fun _ => ?_⟩
        rintro ⟨rest, same⟩
        rw [← same, after?_append] at absent
        cases absent

theorem exists_of_isInfix_replaceFrom {skip : Nat} (nonempty : word ≠ [])
    (inside : word <:+: replaceFrom pattern replacement skip s) :
    ∃ tail, tail <:+ s ∧ word <+: tail ∧ ¬pattern <+: tail := by
  have deeper {c : Char} {s : List Char} (found : ∃ tail, tail <:+ s ∧ word <+: tail ∧
      ¬pattern <+: tail) : ∃ tail, tail <:+ c :: s ∧ word <+: tail ∧ ¬pattern <+: tail := by
    obtain ⟨tail, ends, own⟩ := found
    exact ⟨tail, ends.trans (List.suffix_cons c s), own⟩
  induction s generalizing skip with
  | nil =>
    have none : word = [] := by
      cases skip with
      | zero => exact List.infix_nil.mp inside
      | succ skip => exact List.infix_nil.mp inside
    exact absurd none nonempty
  | cons c s ih =>
    cases skip with
    | succ skip => exact deeper (ih inside)
    | zero =>
      have whole (starts : word <+: replaceFrom pattern replacement 0 (c :: s)) :
          word <+: c :: s ∧ (word ≠ [] → ¬pattern <+: c :: s) :=
        isPrefix_of_replaceFrom written apart starts
      rw [replaceFrom] at inside whole
      split at inside
      · exact deeper (ih (isInfix_of_append_of_disjoint nonempty apart inside))
      · next absent =>
        rw [absent] at whole
        rcases List.infix_cons_iff.mp inside with starts | later
        · exact ⟨c :: s, List.suffix_refl _, (whole starts).1, (whole starts).2 nonempty⟩
        · exact deeper (ih later)

theorem isInfix_of_replaceAll (inside : word <:+: replaceAll pattern replacement s) :
    word <:+: s := by
  by_cases nonempty : word = []
  · rw [nonempty]
    exact List.nil_infix
  · obtain ⟨tail, ends, starts, -⟩ := exists_of_isInfix_replaceFrom written apart nonempty inside
    exact starts.isInfix.trans ends.isInfix

theorem not_isInfix_replaceAll (nonempty : word ≠ []) :
    ¬word <:+: replaceAll word replacement s := by
  intro inside
  obtain ⟨tail, -, starts, other⟩ := exists_of_isInfix_replaceFrom written apart nonempty inside
  exact other starts

end

theorem replaceAll_eq_self (absent : ¬pattern <:+: s) :
    replaceAll pattern replacement s = s := by
  unfold replaceAll
  induction s with
  | nil => rfl
  | cons c s ih =>
    have later : ¬pattern <:+: s := fun inside =>
      absent (inside.trans (List.suffix_cons c s).isInfix)
    have first : after? pattern (c :: s) = none :=
      after?_eq_none fun starts => absent starts.isInfix
    rw [replaceFrom, first]
    exact congrArg (c :: ·) (ih later)

end Rehearsal.Text

/-! ### Lines -/

namespace Rehearsal.Text

variable {ls : List String} {l s : String}

theorem join_eq_intercalate (separator : List Char) (parts : List (List Char)) :
    join separator parts = separator.intercalate parts := by
  induction parts with
  | nil => rfl
  | cons part parts ih =>
    cases parts with
    | nil => exact List.intercalate_singleton.symm
    | cons next parts =>
      rw [join, ih, List.intercalate_cons_cons]
      exact nofun

theorem ofList_join_lines (ls : List (List Char)) :
    String.ofList (join ['\n'] ls) = "\n".intercalate (ls.map String.ofList) := by
  apply String.toList_inj.mp
  rw [String.toList_ofList, String.toList_intercalate, join_eq_intercalate, List.map_map]
  congr 1
  simp

theorem lines_eq (s : String) : lines s = (s.toList.splitOn '\n').map String.ofList := by
  rw [lines, splitOn_eq]

theorem intercalate_lines (s : String) : "\n".intercalate (lines s) = s := by
  rw [lines, ← ofList_join_lines, join_eq_intercalate, splitOn_eq, List.intercalate_splitOn,
    String.ofList_toList]

theorem not_mem_of_mem_splitOn {separator : Char} {part cs : List Char}
    (member : part ∈ cs.splitOn separator) : separator ∉ part := by
  induction cs generalizing part with
  | nil =>
    rw [List.splitOn_nil, List.mem_singleton] at member
    exact member ▸ List.not_mem_nil
  | cons c cs ih =>
    obtain ⟨first, others, split⟩ := List.exists_cons_of_ne_nil (List.splitOn_ne_nil separator cs)
    rw [List.splitOn_cons_eq_if_modifyHead, split] at member
    rw [split] at ih
    split at member
    · rcases List.mem_cons.mp member with rfl | member
      · exact List.not_mem_nil
      · exact ih member
    · next other =>
      rcases List.mem_cons.mp member with rfl | member
      · have different : separator ≠ c := fun same => other (beq_iff_eq.mpr same.symm)
        exact List.not_mem_cons_of_ne_of_not_mem different (ih List.mem_cons_self)
      · exact ih (.tail first member)

theorem not_mem_of_mem_lines (member : l ∈ lines s) : '\n' ∉ l.toList := by
  rw [lines_eq] at member
  obtain ⟨part, own, rfl⟩ := List.mem_map.mp member
  rw [String.toList_ofList]
  exact not_mem_of_mem_splitOn own

theorem lines_intercalate (nonempty : ls ≠ []) (whole : ∀ l ∈ ls, '\n' ∉ l.toList) :
    lines ("\n".intercalate ls) = ls := by
  have parts : ∀ part ∈ ls.map String.toList, '\n' ∉ part := List.forall_mem_map.mpr whole
  rw [lines_eq, String.toList_intercalate, show "\n".toList = ['\n'] from rfl,
    List.splitOn_intercalate '\n' parts (mt List.map_eq_nil_iff.mp nonempty), List.map_map]
  simp

/-! ### Some of the lines -/

theorem intercalate_isPrefix (ls after : List String) :
    ("\n".intercalate ls).toList <+: ("\n".intercalate (ls ++ after)).toList := by
  by_cases first : ls = []
  · rw [first, String.intercalate_nil]
    exact List.nil_prefix
  by_cases rest : after = []
  · simp [rest]
  · rw [String.intercalate_append_of_ne_nil first rest, String.append_assoc, String.toList_append]
    exact List.prefix_append _ _

theorem intercalate_isSuffix (before ls : List String) :
    ("\n".intercalate ls).toList <:+ ("\n".intercalate (before ++ ls)).toList := by
  by_cases first : before = []
  · simp [first]
  by_cases rest : ls = []
  · rw [rest, String.intercalate_nil]
    exact List.nil_suffix
  · rw [String.intercalate_append_of_ne_nil first rest, String.toList_append]
    exact List.suffix_append _ _

theorem isInfix_of_lines_eq {before after : List String} (parts : lines s = before ++ ls ++ after) :
    ("\n".intercalate ls).toList <:+: s.toList := by
  rw [← intercalate_lines s, parts]
  exact (intercalate_isSuffix before ls).isInfix.trans (intercalate_isPrefix _ after).isInfix

end Rehearsal.Text
