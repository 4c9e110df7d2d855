import Rehearsal.Proofs.Expression.Exact

/-! A reference with several parts is one token in front of all that goes on with no name
(`IsReference.lexeme?_append`), and alone it is read as the reference (`IsReference.parse_eq`). -/

namespace Rehearsal.Expression

open Rehearsal.Text

/-! ### Names before other text -/

theorem partsLength_of_isPath {s : List Char} (path : IsPath s) {inPart : Bool}
    (start : inPart = true ∨ ∀ c ∈ s.head?, c = '.') {rest : List Char}
    (ends : ∀ c ∈ rest.head?, c ≠ '.' ∧ isPartChar c = false) :
    partsLength inPart (s ++ rest) = s.length := by
  induction path generalizing inPart with
  | nil =>
    cases rest with
    | nil => rfl
    | cons c rest =>
      obtain ⟨dotless, other⟩ := ends c rfl
      rw [List.nil_append, partsLength]
      · simp [other]
      · exact fun _ _ same => absurd same dotless
  | @part c s own path ih =>
    have dotless : c ≠ '.' := by
      rintro rfl
      exact absurd own (by decide)
    obtain rfl : inPart = true := start.resolve_right fun dot => dotless (dot c rfl)
    rw [List.cons_append, partsLength]
    · rw [own, ih (.inl rfl)]
      simp [Nat.add_comm]
    · exact fun _ _ same => absurd same dotless
  | @dot c s own path ih =>
    rw [List.cons_append, List.cons_append, partsLength, if_pos own, ih (.inl rfl)]
    simp only [List.length_cons]
    omega

theorem name?_append {c : Char} {root more : List Char} (start : isNameStart c = true)
    (chars : ∀ d ∈ root, isNameChar d = true) (path : IsPath ('.' :: more)) {rest : List Char}
    (ends : ∀ d ∈ rest.head?, d ≠ '.' ∧ isPartChar d = false) :
    name? (c :: (root ++ '.' :: more ++ rest)) = some (c :: (root ++ '.' :: more)).length := by
  have parts : partsLength false ('.' :: more ++ rest) = ('.' :: more).length :=
    partsLength_of_isPath path (.inr (by simp)) ends
  have dot : isNameChar '.' = false := by decide
  have first : (root ++ '.' :: more ++ rest).takeWhile isNameChar = root := by
    rw [List.append_assoc, List.takeWhile_append_of_pos chars, List.cons_append,
      List.takeWhile_cons_of_neg (by simp [dot]), List.append_nil]
  have second : (root ++ '.' :: more ++ rest).dropWhile isNameChar = '.' :: more ++ rest := by
    rw [List.append_assoc, List.dropWhile_append_of_pos chars, List.cons_append,
      List.dropWhile_cons_of_neg (by simp [dot])]
  rw [name?, if_pos start]
  dsimp only
  rw [first, second, parts]
  simp only [List.length_cons, List.length_append]
  exact congrArg some (by omega)

theorem toNat_lt_of_isNameStart {c : Char} (start : isNameStart c = true) : c.toNat < 128 := by
  rcases Bool.or_eq_true_iff.mp start with letter | underscore
  · rcases Bool.or_eq_true_iff.mp letter with upper | lower
    · have upper := (of_decide_eq_true upper).2
      exact Nat.lt_of_le_of_lt (UInt32.le_iff_toNat_le.mp upper) (by decide)
    · have lower := of_decide_eq_true (Bool.and_eq_true_iff.mp lower).2
      exact Nat.lt_of_le_of_lt (UInt32.le_iff_toNat_le.mp lower) (by decide)
  · rw [eq_of_beq underscore]
    decide

theorem isPartChar_of_isNameStart {c : Char} (start : isNameStart c = true) :
    isPartChar c = true := by
  simp only [isNameStart, Bool.or_eq_true] at start
  simp only [isPartChar, isNameChar, Char.isAlphanum, Bool.or_eq_true]
  rcases start with alpha | underscore
  · exact .inl (.inl (.inl (.inl alpha)))
  · exact .inl (.inl (.inr underscore))

theorem lexeme?_of_isNameStart {c : Char} (start : isNameStart c = true) (s : List Char) :
    lexeme? (c :: s) = (name? (c :: s)).map (TokenKind.name, ·) := by
  have letter : isDecimalDigit c = false := by
    have known : ∀ n < 128, isNameStart (Char.ofNat n) = true →
        isDecimalDigit (Char.ofNat n) = false := by decide +kernel
    have own := known c.toNat (toNat_lt_of_isNameStart start)
    rw [Char.ofNat_toNat] at own
    exact own start
  have quoted : Quoted.length? (c :: s) = none := by
    unfold Quoted.length?
    split <;> first | rfl | (next same => cases same; exact absurd start (by decide))
  have number : numeral? (c :: s) = none := by
    unfold numeral?
    split
    · next same =>
      cases same
      exact absurd start (by decide)
    · next same =>
      cases same
      rw [letter]
      rfl
    · rfl
  have operator : operator? (c :: s) = none := by
    unfold operator?
    split <;> first | rfl | (next same => cases same; exact absurd start (by decide))
  have punctuation : punctuation? (c :: s) = none := by
    unfold punctuation?
    split <;> first | rfl | (next same => cases same; exact absurd start (by decide))
  rw [lexeme?, quoted, number, operator, punctuation]
  rfl

/-! ### References -/

/-- That a text is a name with further parts after it. -/
structure IsReference (r : String) : Prop where
  parts : ∃ c root more, r.toList = c :: (root ++ '.' :: more) ∧ isNameStart c = true ∧
    (∀ d ∈ root, isNameChar d = true) ∧ IsPath ('.' :: more)

namespace IsReference

variable {r : String} (reference : IsReference r)
include reference

theorem nonempty : r.toList ≠ [] := by
  obtain ⟨c, root, more, text, -⟩ := reference.parts
  rw [text]
  exact List.cons_ne_nil _ _

theorem isPath : IsPath r.toList := by
  obtain ⟨c, root, more, text, start, chars, path⟩ := reference.parts
  have own : ∀ d ∈ c :: root, isPartChar d = true := by
    intro d member
    rcases List.mem_cons.mp member with rfl | member
    · exact isPartChar_of_isNameStart start
    · rw [isPartChar, chars d member]
      rfl
  rw [text]
  exact IsPath.append (a := c :: root) own path

theorem keyword?_eq_none : keyword? r = none := by
  obtain ⟨c, root, more, text, -⟩ := reference.parts
  have dot : '.' ∈ r.toList := by
    rw [text]
    exact List.mem_cons_of_mem _ (List.mem_append_right _ List.mem_cons_self)
  unfold keyword?
  split
  · exact absurd dot (by decide)
  · exact absurd dot (by decide)
  · exact absurd dot (by decide)
  · rfl

theorem lexeme?_append {rest : List Char}
    (ends : ∀ d ∈ rest.head?, d ≠ '.' ∧ isPartChar d = false) :
    lexeme? (r.toList ++ rest) = some (.name, r.toList.length) := by
  obtain ⟨c, root, more, text, start, chars, path⟩ := reference.parts
  rw [text, List.cons_append, lexeme?_of_isNameStart start, name?_append start chars path ends]
  rfl

theorem lexed {rest : List Char} {position : Nat} {ts : List Token}
    (ends : ∀ d ∈ rest.head?, d ≠ '.' ∧ isPartChar d = false)
    (later : Lexed (position + r.length) rest ts) :
    Lexed position (r.toList ++ rest) (⟨.name, r, position⟩ :: ts) := by
  have found := reference.lexeme?_append ends
  obtain ⟨c, root, more, text, start, -⟩ := reference.parts
  have visible : isBlank c = false := isBlank_of_isPartChar (isPartChar_of_isNameStart start)
  have whole : r = String.ofList (c :: (root ++ '.' :: more)) := by
    rw [← text, String.ofList_toList]
  rw [← String.length_toList, text] at later
  rw [text] at found ⊢
  rw [whole]
  exact .token visible found later

theorem tokenize_eq : tokenize r = .ok [⟨.name, r, 0⟩] := by
  have whole : Lexed 0 (r.toList ++ []) [⟨.name, r, 0⟩] := reference.lexed nofun (.nil _)
  rw [List.append_nil] at whole
  exact tokenize_iff.mpr whole

theorem parse_eq : Expression.parse r = .ok (.reference r) := by
  let alone : Derivation .primary := .reference ⟨.name, r, 0⟩ rfl reference.keyword?_eq_none
  exact parse_of_primary (d := alone) reference.tokenize_eq

end IsReference
end Rehearsal.Expression
