import Rehearsal.Proofs.Context.Lookup
import Rehearsal.Proofs.Json.Characters
import Rehearsal.Proofs.Number.Plain

/-! A value of null, truth values, integers, strings, lists and mappings is read from its compact
JSON as it was: `Value.Portable.restored`. -/

namespace Rehearsal

namespace Json

open Text Numeral

/-- That what follows a value in a text does not belong to it. -/
def Ends (rest : List Char) : Prop := ∀ c ∈ rest.head?, c = ',' ∨ c = ']' ∨ c = '\x7d'

theorem isAsciiDigit_of_mem_toDigits {n : Nat} {c : Char} (member : c ∈ Nat.toDigits 10 n) :
    isAsciiDigit c = true := by
  have digit : ∀ d < 10, isAsciiDigit (Nat.digitChar d) = true := by decide
  obtain ⟨d, small, rfl⟩ := digit_of_mem_toDigits (by decide) member
  exact digit d small

theorem head?_toDigits {n : Nat} (pos : 0 < n) : (Nat.toDigits 10 n).head? ≠ some '0' := by
  rw [Nat.toDigits_eq_if (by decide)]
  split
  · next small =>
    have digit : ∀ d < 10, 0 < d → Nat.digitChar d ≠ '0' := by decide
    exact fun same => digit n small pos (Option.some.inj same)
  · have first := head?_toDigits (n := n / 10) (by omega)
    have nonempty := (isDigits_toDigits (n / 10)).nonempty
    rw [List.head?_append_of_ne_nil _ nonempty]
    exact first
termination_by n
decreasing_by omega

theorem wholePart?_toDigits (n : Nat) {rest : List Char}
    (ends : ∀ c ∈ rest.head?, isAsciiDigit c = false) :
    wholePart? (Nat.toDigits 10 n ++ rest) = some (Nat.toDigits 10 n, rest) := by
  have digits : ∀ c ∈ Nat.toDigits 10 n, isAsciiDigit c = true :=
    fun c => isAsciiDigit_of_mem_toDigits
  have other : rest.takeWhile isAsciiDigit = [] ∧ rest.dropWhile isAsciiDigit = rest := by
    cases rest with
    | nil => exact ⟨rfl, rfl⟩
    | cons c rest => simp [ends c rfl]
  rcases Nat.eq_zero_or_pos n with rfl | pos
  · rfl
  · have first := head?_toDigits pos
    cases text : Nat.toDigits 10 n with
    | nil => exact absurd text (isDigits_toDigits n).nonempty
    | cons c s =>
      rw [text] at digits first
      obtain ⟨own, others⟩ := List.forall_mem_cons.mp digits
      rw [List.cons_append, wholePart?, if_pos own, List.takeWhile_append_of_pos others,
        List.dropWhile_append_of_pos others, other.1, other.2, List.append_nil]
      exact fun same => first (congrArg some same)

theorem number_toDigits (negative : Bool) {n : Nat} (short : n < 10 ^ maxDigits)
    {rest : List Char} (ends : Ends rest) : number negative (Nat.toDigits 10 n ++ rest) =
      .ok (.int (if negative then -(n : Int) else n), rest) := by
  obtain ⟨plain, fraction, exponent⟩ : (∀ c ∈ rest.head?, isAsciiDigit c = false) ∧
      fractionPart rest = ([], rest) ∧ exponentPart rest = ([], rest) := by
    cases rest with
    | nil => exact ⟨nofun, rfl, rfl⟩
    | cons c rest =>
      rcases ends c rfl with rfl | rfl | rfl
      all_goals exact ⟨fun c first => by cases first; decide, rfl, rfl⟩
  rw [number, wholePart?_toDigits n plain]
  simp only [fraction, exponent]
  rw [integer?_toDigits short]
  rfl

/-! ### Values -/

def isSpace (c : Char) : Bool := c = ' ' || c = '\t' || c = '\n' || c = '\r'

theorem skip_eq_self {s : List Char} (first : ∀ c ∈ s.head?, isSpace c = false) : skip s = s := by
  cases s with
  | nil => rfl
  | cons c s => exact List.dropWhile_cons_of_neg (by simpa [isSpace] using first c rfl)

/-- That a text is how a value is written, and that the value is read from it. -/
structure Legible (v : Value) (text : List Char) : Prop where
  written : render .compact v = .ok text
  first : ∃ c s, text = c :: s ∧ isSpace c = false ∧ c ≠ ']'
  read : ∀ fuel rest, 2 * text.length ≤ fuel → Ends rest →
    value fuel (text ++ rest) = .ok (v, rest)

theorem value_of_atom {c : Char} (other : c ≠ '"' ∧ c ≠ '[' ∧ c ≠ '\x7b') (fuel : Nat)
    (s : List Char) : value (fuel + 1) (c :: s) = atom (c :: s) := by
  obtain ⟨quote, bracket, brace⟩ := other
  rw [value]
  · exact fun s same => quote (List.cons.inj same).1
  · exact fun s same => bracket (List.cons.inj same).1
  · exact fun s same => brace (List.cons.inj same).1

theorem exists_fuel {fuel : Nat} {text : List Char} (nonempty : text ≠ [])
    (enough : 2 * text.length ≤ fuel) : ∃ k, fuel = k + 1 := by
  have := List.length_pos_iff.mpr nonempty
  exact ⟨fuel - 1, by omega⟩

namespace Legible

theorem of_atom {v : Value} {text : List Char} (written : render .compact v = .ok text)
    (first : ∃ c s, text = c :: s ∧ isSpace c = false ∧ c ≠ ']' ∧ c ≠ '"' ∧ c ≠ '[' ∧ c ≠ '\x7b')
    (read : ∀ rest, Ends rest → atom (text ++ rest) = .ok (v, rest)) : Legible v text := by
  obtain ⟨c, s, rfl, visible, open_, other⟩ := first
  refine ⟨written, ⟨c, s, rfl, visible, open_⟩, ?_⟩
  intro fuel rest enough ends
  obtain ⟨fuel, rfl⟩ := exists_fuel (by simp) enough
  rw [List.cons_append, value_of_atom other]
  exact read rest ends

theorem null : Legible .null "null".toList :=
  .of_atom rfl ⟨'n', _, rfl, by decide⟩ fun rest _ => rfl

theorem bool (b : Bool) : Legible (.bool b) (if b then "true" else "false").toList := by
  cases b with
  | false => exact .of_atom rfl ⟨'f', _, rfl, by decide⟩ fun rest _ => rfl
  | true => exact .of_atom rfl ⟨'t', _, rfl, by decide⟩ fun rest _ => rfl

theorem atom_of_digit {c : Char} (digit : isAsciiDigit c = true) (s : List Char) :
    atom (c :: s) = number false (c :: s) ∧ atom ('-' :: c :: s) = number true (c :: s) := by
  have other : ∀ d ∈ ['n', 't', 'f', 'N', 'I', '-'], d ≠ c := by
    have letters : ∀ d ∈ ['n', 't', 'f', 'N', 'I', '-'], isAsciiDigit d = false := by
      simp [isAsciiDigit]
    rintro d member rfl
    rw [letters d member] at digit
    cases digit
  simp only [List.forall_mem_cons] at other
  constructor
  · unfold atom
    split
    · next found => simp [words, Text.after?, other] at found
    · split
      · next same => exact absurd (List.cons.inj same).1.symm other.2.2.2.2.2.1
      · rfl
  · simp [atom, words, Text.after?, other]

theorem bare_int {i : Int} {s : String} (told : text? i = some s) :
    bare (.int i) = .ok s.toList := by
  unfold bare
  dsimp only
  rw [told]

theorem int {i : Int} (short : i.natAbs < 10 ^ maxDigits) : ∃ text, Legible (.int i) text := by
  have written : render .compact (.int i) = .ok
      (if i < 0 then '-' :: Nat.toDigits 10 i.natAbs else Nat.toDigits 10 i.natAbs) :=
    (bare_int (text?_eq short)).trans (congrArg Except.ok String.toList_ofList)
  have reads (negative : Bool) (rest : List Char) (ends : Ends rest) :=
    number_toDigits negative short ends
  clear short
  cases digits : Nat.toDigits 10 i.natAbs with
  | nil => exact absurd digits (isDigits_toDigits _).nonempty
  | cons c s =>
    have member : c ∈ Nat.toDigits 10 i.natAbs := digits ▸ List.mem_cons_self
    have digit := isAsciiDigit_of_mem_toDigits member
    rw [digits] at written reads
    by_cases negative : i < 0
    · have own : -(i.natAbs : Int) = i := by omega
      rw [if_pos negative] at written
      refine ⟨_, .of_atom written ⟨'-', _, rfl, by decide⟩ fun rest ends => ?_⟩
      rw [List.cons_append, List.cons_append, (atom_of_digit digit _).2]
      exact (reads true rest ends).trans (by rw [if_pos rfl, own])
    · have own : (i.natAbs : Int) = i := by omega
      rw [if_neg negative] at written
      refine ⟨_, .of_atom written ⟨c, s, rfl, ?_⟩ fun rest ends => ?_⟩
      · have starts : ∀ d < 10, isSpace (Nat.digitChar d) = false ∧ Nat.digitChar d ≠ ']' ∧
            Nat.digitChar d ≠ '"' ∧ Nat.digitChar d ≠ '[' ∧ Nat.digitChar d ≠ '\x7b' := by decide
        obtain ⟨d, small, rfl⟩ := digit_of_mem_toDigits (by decide) member
        exact starts d small
      · rw [List.cons_append, (atom_of_digit digit _).1]
        exact (reads false rest ends).trans (by rw [if_neg nofun, own])

theorem string_append (s : String) (rest : List Char) :
    string s ++ rest = '"' :: (s.toList.flatMap escape ++ '"' :: rest) := by
  simp [string]

theorem str {s : String} (whole : Whole s.toList) : Legible (.str s) (string s) where
  written := rfl
  first := ⟨'"', _, rfl, by decide, by decide⟩
  read fuel rest enough _ := by
    obtain ⟨fuel, rfl⟩ := exists_fuel (by simp [string]) enough
    rw [string_append, value, stringBody_string whole]
    rfl

theorem skip_append {v : Value} {text : List Char} (own : Legible v text) (rest : List Char) :
    skip (text ++ rest) = text ++ rest := by
  obtain ⟨c, s, rfl, visible, -⟩ := own.first
  exact skip_eq_self (by rintro c ⟨⟩; exact visible)

theorem items {x : Value} {xs : List Value} {first : List Char} (own : Legible x first)
    (each : ∀ y ∈ xs, ∃ text, Legible y text) :
    ∃ tail, renderItems .compact xs = .ok tail ∧
      ∀ fuel rest, 2 * (first ++ tail).length ≤ fuel →
        Json.items fuel (first ++ tail ++ rest) = .ok (x :: xs, rest) := by
  induction xs generalizing x first with
  | nil =>
    refine ⟨[']'], rfl, fun fuel rest enough => ?_⟩
    obtain ⟨fuel, rfl⟩ := exists_fuel (by simp) enough
    have read := own.read fuel (']' :: rest) (by simp at enough; omega) (by rintro c ⟨⟩; decide)
    rw [List.append_assoc, Json.items]
    show (value fuel (first ++ ']' :: rest) >>= _ : Except Refusal _) = _
    rw [read]
    rfl
  | cons y ys ih =>
    obtain ⟨⟨second, next⟩, others⟩ := List.forall_mem_cons.mp each
    obtain ⟨tail, written, reads⟩ := ih next others
    refine ⟨',' :: (second ++ tail), ?_, fun fuel rest enough => ?_⟩
    · rw [renderItems, next.written, written]
      rfl
    · obtain ⟨fuel, rfl⟩ := exists_fuel (by simp) enough
      have read := own.read fuel (',' :: (second ++ tail ++ rest)) (by simp at enough; omega)
        (by rintro c ⟨⟩; decide)
      have more := reads fuel rest (by simp at enough ⊢; omega)
      rw [List.append_assoc, Json.items]
      show (value fuel (first ++ ',' :: (second ++ tail ++ rest)) >>= _ : Except Refusal _) = _
      rw [read]
      show (Json.items fuel (skip (second ++ tail ++ rest)) >>= _ : Except Refusal _) = _
      rw [List.append_assoc, next.skip_append, ← List.append_assoc, more]
      rfl

theorem list {items : List Value} (each : ∀ v ∈ items, ∃ text, Legible v text) :
    ∃ text, Legible (.list items) text := by
  cases items with
  | nil =>
    refine ⟨['[', ']'], rfl, ⟨'[', _, rfl, by decide, by decide⟩, ?_⟩
    intro fuel rest enough _
    obtain ⟨fuel, rfl⟩ := exists_fuel (by simp) enough
    rfl
  | cons x xs =>
    obtain ⟨⟨first, own⟩, others⟩ := List.forall_mem_cons.mp each
    obtain ⟨tail, written, reads⟩ := own.items others
    refine ⟨'[' :: (first ++ tail), ?_, ⟨'[', _, rfl, by decide, by decide⟩, ?_⟩
    · rw [render, own.written, written]
      rfl
    · intro fuel rest enough _
      obtain ⟨fuel, rfl⟩ := exists_fuel (by simp) enough
      have read := reads fuel rest (by simp at enough ⊢; omega)
      have skipped := own.skip_append (tail ++ rest)
      obtain ⟨c, s, rfl, -, other⟩ := own.first
      simp only [List.cons_append, List.append_assoc] at read skipped ⊢
      rw [value, skipped]
      split
      · next same => exact absurd (List.cons.inj same).1 other
      · rw [read]
        rfl

/-! ### Mappings -/

theorem key_str (name : String) : key (.str name) = .ok (string name) :=
  congrArg (fun name => Except.ok (string name)) String.ofList_toList

theorem entries {name : String} {x : Value} {xs : List (Scalar × Value)} {first : List Char}
    (named : Whole name.toList) (own : Legible x first)
    (keys : ∀ entry ∈ xs, ∃ name, entry.1 = .str name ∧ Whole name.toList)
    (each : ∀ entry ∈ xs, ∃ text, Legible entry.2 text) :
    ∃ tail, renderEntries .compact xs = .ok tail ∧
      ∀ fuel rest, 2 * (string name ++ ':' :: (first ++ tail)).length ≤ fuel →
        Json.entries fuel (string name ++ ':' :: (first ++ (tail ++ rest))) =
          .ok ((.str name, x) :: xs, rest) := by
  induction xs generalizing name x first with
  | nil =>
    refine ⟨['\x7d'], rfl, fun fuel rest enough => ?_⟩
    obtain ⟨fuel, rfl⟩ := exists_fuel (by simp) enough
    have read := own.read fuel ('\x7d' :: rest) (by simp at enough; omega)
      (by rintro c ⟨⟩; decide)
    rw [string_append, Json.entries, stringBody_string named]
    show (value fuel (skip (first ++ '\x7d' :: rest)) >>= _ : Except Refusal _) = _
    rw [own.skip_append, read]
    rfl
  | cons entry ys ih =>
    obtain ⟨k, y⟩ := entry
    obtain ⟨⟨other, rfl, whole⟩, further⟩ := List.forall_mem_cons.mp keys
    obtain ⟨⟨second, next⟩, others⟩ := List.forall_mem_cons.mp each
    obtain ⟨tail, written, reads⟩ := ih whole next further others
    refine ⟨',' :: (string other ++ ':' :: (second ++ tail)), ?_, fun fuel rest enough => ?_⟩
    · rw [renderEntries, key_str, next.written, written]
      simp [Spacing.compact, bind, Except.bind, pure, Except.pure]
    · obtain ⟨fuel, rfl⟩ := exists_fuel (by simp) enough
      have read := own.read fuel (',' :: (string other ++ ':' :: (second ++ (tail ++ rest))))
        (by simp at enough; omega) (by rintro c ⟨⟩; decide)
      have more := reads fuel rest (by simp at enough ⊢; omega)
      have quoted : skip (string other ++ ':' :: (second ++ (tail ++ rest))) =
          string other ++ ':' :: (second ++ (tail ++ rest)) :=
        skip_eq_self (by rintro c ⟨⟩; decide)
      rw [string_append, Json.entries, stringBody_string named]
      simp only [List.cons_append, List.append_assoc]
      show (value fuel (skip (first ++ _)) >>= _ : Except Refusal _) = _
      rw [own.skip_append, read]
      show (Json.entries fuel (skip _) >>= _ : Except Refusal _) = _
      rw [quoted, more]
      rfl

theorem map {table : Mapping} (keys : ∀ entry ∈ table, ∃ name, entry.1 = .str name ∧
    Whole name.toList) (distinct : Table.Distinct table)
    (each : ∀ entry ∈ table, ∃ text, Legible entry.2 text) :
    ∃ text, Legible (.map table) text := by
  cases table with
  | nil =>
    refine ⟨['\x7b', '\x7d'], rfl, ⟨'\x7b', _, rfl, by decide, by decide⟩, ?_⟩
    intro fuel rest enough _
    obtain ⟨fuel, rfl⟩ := exists_fuel (by simp) enough
    rfl
  | cons entry others =>
    obtain ⟨k, x⟩ := entry
    obtain ⟨⟨name, rfl, named⟩, further⟩ := List.forall_mem_cons.mp keys
    obtain ⟨⟨first, own⟩, more⟩ := List.forall_mem_cons.mp each
    obtain ⟨tail, written, reads⟩ := own.entries named further more
    refine ⟨'\x7b' :: (string name ++ ':' :: (first ++ tail)), ?_,
      ⟨'\x7b', _, rfl, by decide, by decide⟩, ?_⟩
    · rw [render, key_str, own.written, written]
      simp [Spacing.compact, bind, Except.bind, pure, Except.pure]
    · intro fuel rest enough _
      obtain ⟨fuel, rfl⟩ := exists_fuel (by simp) enough
      have read := reads fuel rest (by simp at enough ⊢; omega)
      have quoted : skip (string name ++ ':' :: (first ++ (tail ++ rest))) =
          string name ++ ':' :: (first ++ (tail ++ rest)) :=
        skip_eq_self (by rintro c ⟨⟩; decide)
      simp only [List.cons_append, List.append_assoc]
      rw [value, quoted]
      split
      · next same =>
        rw [string_append] at same
        exact absurd (List.cons.inj same).1 (by decide)
      · rw [read]
        show Except.ok (Value.map (Table.ofList _), rest) = _
        rw [Table.ofList_of_distinct distinct]

end Legible

theorem parse_of_legible {v : Value} {text : List Char} (own : Legible v text) :
    parse (String.ofList text) = .ok v := by
  have read := own.read (2 * text.length + 2) [] (by omega) nofun
  have skipped := own.skip_append []
  rw [List.append_nil] at read skipped
  rw [parse, String.toList_ofList, skipped]
  show (value (2 * text.length + 2) text >>= _ : Except Refusal _) = _
  rw [read]
  rfl

end Json

/-- That a value is one that JSON restores: it is made of null, truth values, integers that are not
too long, strings that keep apart the halves of pairs, lists, and mappings of such strings. -/
inductive Value.Portable : Value → Prop
  | null : Portable .null
  | bool (b : Bool) : Portable (.bool b)
  | int {i : Int} (short : i.natAbs < 10 ^ Numeral.maxDigits) : Portable (.int i)
  | str {s : String} (whole : Text.Whole s.toList) : Portable (.str s)
  | list {items : List Value} (each : ∀ v ∈ items, Portable v) : Portable (.list items)
  | map {entries : Mapping} (keys : ∀ entry ∈ entries, ∃ name, entry.1 = .str name ∧
      Text.Whole name.toList) (distinct : Table.Distinct entries)
      (each : ∀ entry ∈ entries, Portable entry.2) : Portable (.map entries)

namespace Value.Portable

variable {v : Value}

theorem legible (portable : v.Portable) : ∃ text, Json.Legible v text := by
  induction portable with
  | null => exact ⟨_, .null⟩
  | bool b => exact ⟨_, .bool b⟩
  | int short => exact Json.Legible.int short
  | str whole => exact ⟨_, .str whole⟩
  | list _ each => exact Json.Legible.list each
  | map keys distinct _ each => exact Json.Legible.map keys distinct each

theorem opened_eq (portable : v.Portable) : v.opened = v := by
  cases portable <;> rfl

theorem restored (portable : v.Portable) :
    ∃ text, Json.text .compact v = .ok text ∧ Json.parse text = .ok v := by
  obtain ⟨text, own⟩ := portable.legible
  refine ⟨String.ofList text, ?_, Json.parse_of_legible own⟩
  rw [Json.text, portable.opened_eq, own.written]
  rfl

end Value.Portable
end Rehearsal
