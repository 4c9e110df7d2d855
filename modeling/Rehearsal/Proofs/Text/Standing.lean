import Rehearsal.Text.Blank
import Rehearsal.Text.Piece
import Mathlib.Data.List.TakeWhile

/-! Where a word stands in a text that is put together from parts: in one of the parts, if it has
none of the characters that part them. A word that comes right after a backslash is left out, as it
may begin with a character that was escaped. -/

namespace Rehearsal.Text

def Stands (word s : List Char) : Prop :=
  ∃ before rest, s = before ++ word ++ rest ∧ before.getLast? ≠ some '\\'

namespace Stands

variable {word s t : List Char} {c : Char}

theorem self (word : List Char) : Stands word word := ⟨[], [], by simp, nofun⟩

theorem isInfix (stands : Stands word s) : word <:+: s := by
  obtain ⟨before, rest, rfl, -⟩ := stands
  exact ⟨before, rest, rfl⟩

theorem start {more : List Char} (stands : Stands (word ++ more) s) : Stands word s := by
  obtain ⟨before, rest, rfl, free⟩ := stands
  exact ⟨before, more ++ rest, by simp, free⟩

theorem append_right (stands : Stands word s) (t : List Char) : Stands word (s ++ t) := by
  obtain ⟨before, rest, rfl, free⟩ := stands
  exact ⟨before, rest ++ t, by simp, free⟩

theorem of_isPrefix (stands : Stands word s) (starts : s <+: t) : Stands word t := by
  obtain ⟨rest, rfl⟩ := starts
  exact stands.append_right rest

theorem append_left (stands : Stands word s) (free : t.getLast? ≠ some '\\') :
    Stands word (t ++ s) := by
  obtain ⟨before, rest, rfl, own⟩ := stands
  refine ⟨t ++ before, rest, by simp, ?_⟩
  rw [List.getLast?_append]
  cases last : before.getLast? with
  | none => exact free
  | some d =>
    rw [last] at own
    exact own

theorem append_left_of_last (stands : Stands word s) (before : List Char)
    (last : t.getLast? = some c) (other : c ≠ '\\') : Stands word (before ++ t ++ s) := by
  refine stands.append_left ?_
  rw [List.getLast?_append, last]
  exact fun same => other (Option.some.inj same)

theorem of_append_cons (stands : Stands word (s ++ c :: t)) (other : c ∉ word) :
    Stands word s ∨ Stands word t := by
  obtain ⟨before, rest, same, free⟩ := stands
  rw [List.append_assoc] at same
  rcases List.append_eq_append_iff.mp same with ⟨gap, left, right⟩ | ⟨gap, left, right⟩
  · cases gap with
    | nil =>
      cases word with
      | nil => exact .inl ⟨[], s, by simp, nofun⟩
      | cons d word =>
        obtain ⟨rfl, -⟩ := List.cons.inj right
        exact absurd List.mem_cons_self other
    | cons d gap =>
      obtain ⟨rfl, right⟩ := List.cons.inj right
      refine .inr ⟨gap, rest, by simpa using right, ?_⟩
      intro last
      refine free ?_
      rw [left, List.getLast?_append, List.getLast?_cons, last]
      rfl
  · rcases List.append_eq_append_iff.mp right with ⟨more, inside, after⟩ | ⟨more, inside, after⟩
    · refine .inl ⟨before, more, ?_, free⟩
      rw [left, inside, List.append_assoc]
    · cases more with
      | nil =>
        refine .inl ⟨before, [], ?_, free⟩
        rw [left, inside]
        simp
      | cons d more =>
        obtain ⟨rfl, -⟩ := List.cons.inj after
        exact absurd (inside ▸ List.mem_append_right _ List.mem_cons_self) other

theorem of_append {first : Char} {word block s : List Char}
    (stands : Stands (first :: word) (block ++ s)) :
    Stands (first :: word) s ∨ ∃ before rest, block = before ++ first :: rest ∧
      before.getLast? ≠ some '\\' ∧ word <+: rest ++ s := by
  obtain ⟨before, rest, same, free⟩ := stands
  rw [List.append_assoc] at same
  rcases List.append_eq_append_iff.mp same with ⟨gap, rfl, right⟩ | ⟨gap, left, right⟩
  · refine .inl ⟨gap, rest, by simpa using right, ?_⟩
    intro last
    refine free ?_
    rw [List.getLast?_append, last]
    rfl
  · cases gap with
    | nil => exact .inl ⟨[], rest, right.symm, nofun⟩
    | cons d gap =>
      obtain ⟨rfl, same⟩ := List.cons.inj right
      exact .inr ⟨before, gap, left, free, rest, same⟩

theorem of_cons (stands : Stands word (c :: s)) (other : c ∉ word) (nonempty : word ≠ []) :
    Stands word s := by
  rcases of_append_cons (s := []) stands other with none | own
  · exact absurd (List.infix_nil.mp none.isInfix) nonempty
  · exact own

end Stands

/-! ### Words in texts that are put together -/

section

variable {word s t : List Char}

theorem isInfix_of_append_of_disjoint (nonempty : word ≠ []) (other : ∀ c ∈ s, c ∉ word)
    (inside : word <:+: s ++ t) : word <:+: t := by
  induction s with
  | nil => exact inside
  | cons c s ih =>
    rw [List.forall_mem_cons] at other
    rcases List.infix_cons_iff.mp inside with ⟨rest, starts⟩ | later
    · cases word with
      | nil => exact absurd rfl nonempty
      | cons d word =>
        obtain ⟨rfl, -⟩ := List.cons.inj starts
        exact absurd List.mem_cons_self other.1
    · exact ih other.2 later

theorem isPrefix_of_append_cons {c : Char} (other : c ∉ word) (starts : word <+: s ++ c :: t) :
    word <+: s := by
  rcases List.prefix_or_prefix_of_prefix starts (List.prefix_append s (c :: t)) with own | longer
  · exact own
  · obtain ⟨more, rfl⟩ := longer
    rw [List.prefix_append_right_inj] at starts
    cases more with
    | nil => exact ⟨[], by simp⟩
    | cons d more =>
      obtain ⟨rfl, -⟩ := List.cons_prefix_cons.mp starts
      exact absurd (List.mem_append_right s List.mem_cons_self) other

theorem isInfix_of_append_cons {c : Char} (nonempty : word ≠ []) (other : c ∉ word)
    (inside : word <:+: s ++ c :: t) : word <:+: s ∨ word <:+: t := by
  induction s with
  | nil =>
    refine .inr (isInfix_of_append_of_disjoint (s := [c]) nonempty ?_ inside)
    intro d member
    rwa [List.mem_singleton.mp member]
  | cons d s ih =>
    rcases List.infix_cons_iff.mp inside with starts | later
    · exact .inl (isPrefix_of_append_cons (s := d :: s) other starts).isInfix
    · exact (ih later).imp_left fun own => own.trans (List.suffix_cons d s).isInfix

/-- A word at the start of a text in which some characters are written otherwise, each beginning
with one that the word does not have. -/
theorem isPrefix_of_flatMap {f : Char → List Char}
    (escapes : ∀ c, f c = [c] ∨ ∃ d tail, f c = d :: tail ∧ d ∉ word)
    (starts : word <+: s.flatMap f) : word <+: s := by
  induction word generalizing s with
  | nil => exact List.nil_prefix
  | cons first word ih =>
    have later (c : Char) : f c = [c] ∨ ∃ d tail, f c = d :: tail ∧ d ∉ word :=
      (escapes c).imp_right fun ⟨d, tail, own, other⟩ =>
        ⟨d, tail, own, fun member => other (.tail first member)⟩
    cases s with
    | nil => simp at starts
    | cons c s =>
      rw [List.flatMap_cons] at starts
      rcases escapes c with own | ⟨d, tail, own, other⟩
      · rw [own, List.singleton_append, List.cons_prefix_cons] at starts
        exact List.cons_prefix_cons.mpr ⟨starts.1, ih later starts.2⟩
      · rw [own, List.cons_append, List.cons_prefix_cons] at starts
        exact absurd (starts.1 ▸ List.mem_cons_self) other

/-- A word in a text in which some characters are written with others that the word does not
have. -/
theorem isInfix_of_flatMap {f : Char → List Char} (nonempty : word ≠ [])
    (escapes : ∀ c, f c = [c] ∨ f c ≠ [] ∧ ∀ d ∈ f c, d ∉ word)
    (inside : word <:+: s.flatMap f) : word <:+: s := by
  have heads (c : Char) : f c = [c] ∨ ∃ d tail, f c = d :: tail ∧ d ∉ word := by
    refine (escapes c).imp_right fun ⟨written, others⟩ => ?_
    obtain ⟨d, tail, same⟩ := List.exists_cons_of_ne_nil written
    exact ⟨d, tail, same, others d (same ▸ List.mem_cons_self)⟩
  induction s with
  | nil => exact inside
  | cons c s ih =>
    have later (rest : word <:+: s.flatMap f) : word <:+: c :: s :=
      (ih rest).trans (List.suffix_cons c s).isInfix
    rcases escapes c with own | ⟨-, others⟩
    · have written : (c :: s).flatMap f = c :: s.flatMap f := by
        rw [List.flatMap_cons, own, List.singleton_append]
      rw [written] at inside
      rcases List.infix_cons_iff.mp inside with starts | rest
      · exact (isPrefix_of_flatMap heads (written ▸ starts)).isInfix
      · exact later rest
    · rw [List.flatMap_cons] at inside
      exact later (isInfix_of_append_of_disjoint nonempty others inside)

end

/-! ### Trimming -/

theorem isBlank_backslash : isBlank '\\' = false := by decide

theorem exists_trim (s : List Char) :
    ∃ before after, s = before ++ trim s ++ after ∧
      (∀ c ∈ before, isBlank c = true) ∧ ∀ c ∈ after, isBlank c = true := by
  have first : s = s.takeWhile isBlank ++ trimLeft s := List.takeWhile_append_dropWhile.symm
  have last : trimLeft s = trim s ++ ((trimLeft s).reverse.takeWhile isBlank).reverse := by
    rw [trim, trimRight, ← List.reverse_append, List.takeWhile_append_dropWhile,
      List.reverse_reverse]
  refine ⟨s.takeWhile isBlank, ((trimLeft s).reverse.takeWhile isBlank).reverse, ?_, ?_, ?_⟩
  · rw [List.append_assoc, ← last, ← first]
  · exact fun c member => List.mem_takeWhile_imp member
  · exact fun c member => List.mem_takeWhile_imp (List.mem_reverse.mp member)

theorem trimLeft_eq_self {s : List Char} (first : ∀ c ∈ s.head?, isBlank c = false) :
    trimLeft s = s := by
  cases s with
  | nil => rfl
  | cons c s => exact List.dropWhile_cons_of_neg (by simp [first c rfl])

theorem trim_eq_self {s : List Char} (first : ∀ c ∈ s.head?, isBlank c = false)
    (last : ∀ c ∈ s.getLast?, isBlank c = false) : trim s = s := by
  have reversed : trimLeft s.reverse = s.reverse := by
    refine trimLeft_eq_self fun c member => last c ?_
    rwa [List.head?_reverse] at member
  rw [trim, trimLeft_eq_self first]
  exact (congrArg List.reverse reversed).trans (List.reverse_reverse s)

theorem trimRight_append {s : List Char} (last : ∀ c ∈ s.getLast?, isBlank c = false)
    (rest : List Char) : trimRight (s ++ rest) = s ++ trimRight rest := by
  have kept : s.reverse.dropWhile isBlank = s.reverse :=
    trimLeft_eq_self fun c member => last c (List.head?_reverse ▸ member)
  rw [trimRight, List.reverse_append, List.dropWhile_append]
  split
  · next empty => rw [kept, trimRight, List.isEmpty_iff.mp empty]; simp
  · rw [List.reverse_append, List.reverse_reverse, trimRight]

theorem trim_append_cons {c : Char} (visible : isBlank c = false) (s t : List Char) :
    trim (s ++ c :: t) = trimLeft s ++ c :: trimRight t := by
  have left : trimLeft (s ++ c :: t) = (trimLeft s ++ [c]) ++ t := by
    rw [trimLeft, List.dropWhile_append, trimLeft]
    split
    · next empty => simp [List.isEmpty_iff.mp empty, visible]
    · simp
  rw [trim, left, trimRight_append (by simp [visible]), List.append_assoc, List.singleton_append]

theorem not_mem_of_blank {s : List Char} {c : Char} (blank : ∀ d ∈ s, isBlank d = true)
    (visible : isBlank c = false) : c ∉ s := by
  intro member
  rw [blank c member] at visible
  cases visible

theorem trim_cons_blank {c : Char} (blank : isBlank c = true) (s : List Char) :
    trim (c :: s) = trim s := by
  rw [trim, trimLeft, List.dropWhile_cons_of_pos blank]
  rfl

theorem trim_append_blank {c : Char} (blank : isBlank c = true) (s : List Char) :
    trim (s ++ [c]) = trim s := by
  have right (s : List Char) : trimRight (s ++ [c]) = trimRight s := by
    rw [trimRight, List.reverse_append]
    exact congrArg List.reverse (List.dropWhile_cons_of_pos blank)
  rw [trim, trim, trimLeft, List.dropWhile_append]
  split
  · next empty =>
    rw [trimLeft, List.isEmpty_iff.mp empty, List.dropWhile_cons_of_pos blank]
    rfl
  · exact right _

theorem trim_blank_append {b : List Char} (blank : ∀ c ∈ b, isBlank c = true) (s : List Char) :
    trim (b ++ s) = trim s := by
  induction b with
  | nil => rfl
  | cons c b ih =>
    obtain ⟨first, others⟩ := List.forall_mem_cons.mp blank
    rw [List.cons_append, trim_cons_blank first, ih others]

theorem trim_append_blanks {b : List Char} (blank : ∀ c ∈ b, isBlank c = true) (s : List Char) :
    trim (s ++ b) = trim s := by
  induction b generalizing s with
  | nil => rw [List.append_nil]
  | cons c b ih =>
    obtain ⟨first, others⟩ := List.forall_mem_cons.mp blank
    rw [← List.singleton_append, ← List.append_assoc, ih others, trim_append_blank first]

theorem trim_trimLeft (s : List Char) : trim (trimLeft s) = trim s := by
  have whole : s = s.takeWhile isBlank ++ trimLeft s := List.takeWhile_append_dropWhile.symm
  have blank : ∀ c ∈ s.takeWhile isBlank, isBlank c = true := fun c member =>
    List.mem_takeWhile_imp member
  exact (trim_blank_append blank _).symm.trans (congrArg trim whole.symm)

theorem trim_trimRight (s : List Char) : trim (trimRight s) = trim s := by
  have whole : s = trimRight s ++ (s.reverse.takeWhile isBlank).reverse := by
    rw [trimRight, ← List.reverse_append, List.takeWhile_append_dropWhile, List.reverse_reverse]
  have blank : ∀ c ∈ (s.reverse.takeWhile isBlank).reverse, isBlank c = true := fun c member =>
    List.mem_takeWhile_imp (List.mem_reverse.mp member)
  exact (trim_append_blanks blank _).symm.trans (congrArg trim whole.symm)

theorem head?_trim (s : List Char) : ∀ c ∈ (trim s).head?, isBlank c = false := by
  intro c first
  have whole : (trimLeft s).head? = some c := by
    obtain ⟨after, own⟩ : trim s <+: trimLeft s := by
      rw [trim, trimRight]
      exact List.reverse_suffix.mp (by simpa using List.dropWhile_suffix isBlank)
    rw [← own, List.head?_append, first]
    rfl
  have visible := List.head?_dropWhile_not isBlank s
  rw [trimLeft] at whole
  rw [whole] at visible
  simpa using visible

theorem getLast?_trim (s : List Char) : ∀ c ∈ (trim s).getLast?, isBlank c = false := by
  intro c last
  rw [trim, trimRight, List.getLast?_reverse] at last
  have visible := List.head?_dropWhile_not isBlank (trimLeft s).reverse
  rw [last] at visible
  simpa using visible

theorem trim_eq_nil_iff (s : List Char) : trim s = [] ↔ ∀ c ∈ s, isBlank c = true := by
  obtain ⟨before, after, whole, first, last⟩ := exists_trim s
  constructor
  · intro empty
    rw [empty, List.append_nil] at whole
    rw [whole]
    exact List.forall_mem_append.mpr ⟨first, last⟩
  · intro blank
    by_contra nonempty
    obtain ⟨c, rest, left⟩ := List.exists_cons_of_ne_nil nonempty
    have visible := head?_trim s c (by rw [left]; rfl)
    rw [blank c (by rw [whole, left]; simp)] at visible
    cases visible

theorem Stands.of_trim {word s : List Char} (stands : Stands word (trim s)) : Stands word s := by
  obtain ⟨before, after, same, blank, -⟩ := exists_trim s
  have free : before.getLast? ≠ some '\\' := by
    intro ends
    have blank := blank _ (List.mem_of_getLast? ends)
    rw [isBlank_backslash] at blank
    cases blank
  rw [same]
  exact (stands.append_left free).append_right after

/-! ### Pieces -/

theorem exists_of_found {length? : List Char → Option Nat} {skip : Nat} {s found : List Char}
    (member : .found found ∈ cutFrom length? skip s) :
    ∃ before rest n, s = before ++ rest ∧ length? rest = some n ∧ found = rest.take n := by
  induction s generalizing skip with
  | nil => cases member
  | cons c s ih =>
    have later {skip : Nat} (member : .found found ∈ cutFrom length? skip s) :
        ∃ before rest n, c :: s = before ++ rest ∧ length? rest = some n ∧
          found = rest.take n := by
      obtain ⟨before, rest, n, rfl, own⟩ := ih member
      exact ⟨c :: before, rest, n, rfl, own⟩
    cases skip with
    | succ skip => exact later member
    | zero =>
      rw [cutFrom] at member
      split at member
      · next n own =>
        rcases List.mem_cons.mp member with first | member
        · exact ⟨[], c :: s, n, rfl, own, Piece.found.inj first⟩
        · exact later member
      · rcases List.mem_cons.mp member with first | member
        · cases first
        · exact later member

end Rehearsal.Text
