import Rehearsal.Proofs.Json.Characters
import Rehearsal.Proofs.Value.Inside

/-! A value mentions a word if one of the strings in it does. If the text of a value has a word like
the start of a reference, the value mentions it: `mentions_of_expressionText`. -/

namespace Rehearsal

open Text

/-! ### The texts of numbers -/

theorem d_not_mem_toDigits (n : Nat) : 'd' ∉ Nat.toDigits 10 n := by
  intro member
  cases Nat.isDigit_of_mem_toDigits (by decide) (by decide) member

theorem Numeral.d_not_mem_text? {i : Int} {text : String} (written : text? i = some text) :
    'd' ∉ text.toList := by
  have digits := d_not_mem_toDigits i.natAbs
  unfold text? at written
  split at written
  · cases written
  · obtain rfl := Option.some.inj written
    rw [String.toList_ofList]
    split
    · simp [digits]
    · exact digits

namespace Double

theorem d_not_mem_trimZeros (n : Nat) : 'd' ∉ trimZeros (Nat.toDigits 10 n) := by
  intro member
  refine d_not_mem_toDigits n ?_
  rw [trimZeros, List.mem_reverse] at member
  exact List.mem_reverse.mp ((List.dropWhile_sublist _).subset member)

theorem d_not_mem_decimal (l : Layout) (d : Decimal) : 'd' ∉ l.decimal d := by
  unfold Layout.decimal
  extract_lets written digits leading mantissa size whole fraction
  have own : 'd' ∉ digits := d_not_mem_trimZeros _
  have exponent : 'd' ∉ size := d_not_mem_toDigits _
  have zeros (n : Nat) : 'd' ∉ List.replicate n '0' := fun member => by
    cases List.eq_of_mem_replicate member
  split
  · have front : 'd' ∉ mantissa := by
      clear_value digits
      dsimp only [mantissa]
      match digits with
      | [] => exact own
      | [_] => exact own
      | _ :: _ :: _ => simpa using own
    have sign : 'd' ≠ if leading < 0 then '-' else '+' := by split <;> decide
    simp [front, zeros, exponent, sign]
  split
  · simp [zeros, own]
  · have front : 'd' ∉ digits.take whole := fun member => own (List.mem_of_mem_take member)
    have back : 'd' ∉ fraction := fun member => own (List.mem_of_mem_drop member)
    split
    · simp [front, zeros]
    · simp [front, zeros, back]

theorem d_not_mem_text {l : Layout} (nan : 'd' ∉ l.nan.toList)
    (infinity : 'd' ∉ l.infinity.toList) (d : Double) : 'd' ∉ (d.text l).toList := by
  cases d with
  | nan => exact nan
  | infinite negative =>
    rw [text, String.toList_append]
    cases negative <;> simp [infinity]
  | finite negative units =>
    have size : 'd' ∉ if units = 0 then ['0', '.', '0'] else l.decimal (shortest units) := by
      split
      · decide
      · exact d_not_mem_decimal l _
    rw [text, String.toList_ofList]
    cases negative <;> simp [size]

end Double

/-! ### The strings in a value -/

def Scalar.strings : Scalar → List String
  | str s => [s]
  | _ => []

namespace Value

mutual

def strings : Value → List String
  | scalar s => s.strings
  | list items => stringsOfItems items
  | map entries => stringsOfEntries entries
  | set members => members.flatMap Scalar.strings
  | pair key value => key.strings ++ value.strings
  | again content => content.strings

def stringsOfItems : List Value → List String
  | [] => []
  | v :: vs => v.strings ++ stringsOfItems vs

def stringsOfEntries : List (Scalar × Value) → List String
  | [] => []
  | (k, v) :: rest => k.strings ++ v.strings ++ stringsOfEntries rest

end

end Value

def Among (word : List Char) (strings : List String) : Prop := ∃ s ∈ strings, word <:+: s.toList

theorem Among.mono {word : List Char} {strings more : List String} (among : Among word strings)
    (part : strings ⊆ more) : Among word more := by
  obtain ⟨s, member, within⟩ := among
  exact ⟨s, part member, within⟩

namespace Value

/-- That a word is in one of the strings of a value. -/
def Mentions (word : List Char) (v : Value) : Prop := Among word v.strings

instance (word : List Char) (v : Value) : Decidable (v.Mentions word) :=
  inferInstanceAs (Decidable (∃ s ∈ v.strings, word <:+: s.toList))

theorem strings_of_item {v : Value} {items : List Value} (member : v ∈ items) :
    v.strings ⊆ stringsOfItems items := by
  induction items with
  | nil => cases member
  | cons first rest ih =>
    rw [stringsOfItems]
    rcases List.mem_cons.mp member with rfl | member
    · exact List.subset_append_left ..
    · exact List.subset_append_of_subset_right _ (ih member)

theorem strings_of_entry {e : Scalar × Value} {entries : List (Scalar × Value)}
    (member : e ∈ entries) : e.2.strings ⊆ stringsOfEntries entries := by
  induction entries with
  | nil => cases member
  | cons first rest ih =>
    rw [stringsOfEntries]
    rcases List.mem_cons.mp member with rfl | member
    · exact List.subset_append_of_subset_left _ (List.subset_append_right ..)
    · exact List.subset_append_of_subset_right _ (ih member)

theorem strings_of_inside {part whole : Value} (inside : Inside part whole) :
    part.strings ⊆ whole.strings := by
  induction inside with
  | self => exact List.Subset.refl _
  | item member _ ih =>
    rw [strings]
    exact List.Subset.trans ih (strings_of_item member)
  | entry member _ ih =>
    rw [strings]
    exact List.Subset.trans ih (strings_of_entry member)
  | content _ ih =>
    rw [strings]
    exact ih

theorem Mentions.of_inside {word : List Char} {part whole : Value}
    (mentions : part.Mentions word) (inside : Inside part whole) : whole.Mentions word :=
  mentions.mono (strings_of_inside inside)

end Value

/-! ### The words of a rendered value -/

/-- A word that begins like a reference to a needed job and is made of characters of references. -/
structure IsNeeds (word : List Char) : Prop where
  starts : "needs".toList <+: word
  chars : ∀ c ∈ word, c = '.' ∨ Expression.isPartChar c = true

namespace IsNeeds

variable {word text : List Char}

theorem not_mem {c : Char} (is : IsNeeds word)
    (other : c ≠ '.' ∧ Expression.isPartChar c = false) : c ∉ word := by
  intro member
  rcases is.chars c member with dot | own
  · exact other.1 dot
  · rw [other.2] at own
    cases own

theorem exists_cons (is : IsNeeds word) : ∃ rest, word = 'n' :: rest := by
  obtain ⟨rest, rfl⟩ := is.starts
  exact ⟨_, rfl⟩

theorem ne_nil (is : IsNeeds word) : word ≠ [] := by
  obtain ⟨rest, rfl⟩ := is.exists_cons
  exact List.cons_ne_nil _ _

theorem not_isInfix (is : IsNeeds word) (none : 'd' ∉ text) : ¬word <:+: text := by
  intro within
  have member : 'd' ∈ word := is.starts.subset (by decide)
  exact none (within.subset member)

theorem of_escaped (is : IsNeeds word) (stands : Stands word (text.flatMap Json.escape)) :
    word <:+: text := by
  have plain := is.not_mem (c := '\\') (by decide)
  obtain ⟨rest, rfl⟩ := is.exists_cons
  exact Json.infix_of_escaped plain stands

end IsNeeds

namespace Json

variable {word : List Char}

theorem infix_of_string (is : IsNeeds word) {s : String} (stands : Stands word (string s)) :
    word <:+: s.toList := by
  have quote := is.not_mem (c := '"') (by decide)
  rw [string, List.cons_append] at stands
  rcases (stands.of_cons quote is.ne_nil).of_append_cons quote with inside | after
  · exact is.of_escaped inside
  · exact absurd (List.infix_nil.mp after.isInfix) is.ne_nil

theorem among_of_bare (is : IsNeeds word) {s : Scalar} {text : List Char}
    (rendered : bare s = .ok text) (within : word <:+: text) : Among word s.strings := by
  have absent (none : 'd' ∉ text) : Among word s.strings := absurd within (is.not_isInfix none)
  cases s with
  | null =>
    cases rendered
    exact absent (by decide)
  | bool b =>
    cases rendered
    exact absent (by cases b <;> decide)
  | int i =>
    unfold bare at rendered
    dsimp only at rendered
    split at rendered
    · next own written =>
      have same : own.toList = text := Except.ok.inj rendered
      exact absent (same ▸ Numeral.d_not_mem_text? written)
    · cases rendered
  | float d =>
    have written : (d.text .json).toList = text := Except.ok.inj rendered
    exact absent (written ▸ Double.d_not_mem_text (by decide) (by decide) d)
  | str own =>
    cases rendered
    exact ⟨own, List.mem_singleton_self _, within⟩
  | _ => cases rendered

theorem among_of_scalar (is : IsNeeds word) {s : Scalar} {text : List Char}
    (rendered : scalar s = .ok text) (stands : Stands word text) : Among word s.strings := by
  unfold scalar at rendered
  split at rendered
  · next own =>
    cases rendered
    exact ⟨own, List.mem_singleton_self _, infix_of_string is stands⟩
  · exact among_of_bare is rendered stands.isInfix

theorem ok_of_bind {α β : Type} {first : Except Unfit α} {next : α → Except Unfit β} {b : β}
    (given : (first >>= next) = .ok b) : ∃ a, first = .ok a ∧ next a = .ok b := by
  cases first with
  | error u => cases given
  | ok a => exact ⟨a, rfl, given⟩

theorem among_of_key (is : IsNeeds word) {s : Scalar} {text : List Char}
    (rendered : key s = .ok text) (stands : Stands word text) : Among word s.strings := by
  obtain ⟨own, written, rendered⟩ := ok_of_bind rendered
  cases rendered
  have within := infix_of_string is stands
  rw [String.toList_ofList] at within
  exact among_of_bare is written within

def Marked (word : List Char) (strings : List String) (text : List Char) : Prop :=
  ∃ mark rest, text = mark :: rest ∧ mark ∉ word ∧ (Stands word rest → Among word strings)

theorem Marked.cases {strings : List String} {text more : List Char}
    (marked : Marked word strings more) (stands : Stands word (text ++ more)) :
    Stands word text ∨ Among word strings := by
  obtain ⟨mark, rest, rfl, other, among⟩ := marked
  exact (stands.of_append_cons other).imp_right among

theorem Marked.close (is : IsNeeds word) {mark : Char} {strings : List String}
    (other : mark ≠ '.' ∧ Expression.isPartChar mark = false) : Marked word strings [mark] := by
  refine ⟨mark, [], rfl, is.not_mem other, fun stands => ?_⟩
  exact absurd (List.infix_nil.mp stands.isInfix) is.ne_nil

theorem among_of_entry (is : IsNeeds word) {k : Scalar} {name text more : List Char}
    {own strings : List String} (named : key k = .ok name)
    (inside : Stands word text → Among word own) (marked : Marked word strings more)
    (stands : Stands word (name ++ Spacing.compact.key ++ text ++ more)) :
    Among word (k.strings ++ own ++ strings) := by
  have colon := is.not_mem (c := ':') (by decide)
  rw [List.append_assoc, List.append_assoc] at stands
  rcases stands.of_append_cons colon with stands | stands
  · exact (among_of_key is named stands).mono (by simp)
  · rcases marked.cases stands with stands | later
    · exact (inside stands).mono (by simp)
    · exact later.mono (by simp)

mutual

theorem mentions_of_render (is : IsNeeds word) : ∀ (v : Value) (text : List Char),
    render .compact v = .ok text → Stands word text → v.Mentions word
  | .scalar s, text, rendered, stands => by
    rw [render] at rendered
    exact among_of_scalar is rendered stands
  | .list [], text, rendered, stands => by
    rw [render] at rendered
    cases rendered
    exact absurd stands.isInfix (is.not_isInfix (by decide))
  | .list (x :: xs), text, rendered, stands => by
    rw [render] at rendered
    obtain ⟨first, own, rendered⟩ := ok_of_bind rendered
    obtain ⟨others, items, rendered⟩ := ok_of_bind rendered
    cases rendered
    -- The marks between the items are in no word, so it stands inside one of them.
    have bracket := is.not_mem (c := '[') (by decide)
    have marked := marked_of_renderItems is xs others items
    rcases marked.cases (stands.of_cons bracket is.ne_nil) with here | there
    · exact (mentions_of_render is x first own here).mono (List.subset_append_left ..)
    · exact there.mono (List.subset_append_right ..)
  | .map [], text, rendered, stands => by
    rw [render] at rendered
    cases rendered
    exact absurd stands.isInfix (is.not_isInfix (by decide))
  | .map ((k, x) :: xs), text, rendered, stands => by
    rw [render] at rendered
    obtain ⟨name, named, rendered⟩ := ok_of_bind rendered
    obtain ⟨first, own, rendered⟩ := ok_of_bind rendered
    obtain ⟨others, entries, rendered⟩ := ok_of_bind rendered
    cases rendered
    have brace := is.not_mem (c := '\x7b') (by decide)
    exact among_of_entry is named (mentions_of_render is x first own)
      (marked_of_renderEntries is xs others entries) (stands.of_cons brace is.ne_nil)
  | .set _, text, rendered, stands => by
    rw [render] at rendered
    cases rendered
  | .pair left right, text, rendered, stands => by
    rw [render] at rendered
    obtain ⟨first, own, rendered⟩ := ok_of_bind rendered
    obtain ⟨second, other, rendered⟩ := ok_of_bind rendered
    cases rendered
    have bracket := is.not_mem (c := '[') (by decide)
    have comma := is.not_mem (c := ',') (by decide)
    have close : Marked word [] [']'] := .close is (by decide)
    have inside : Stands word (first ++ Spacing.compact.item ++ second ++ [']']) :=
      stands.of_cons bracket is.ne_nil
    rw [List.append_assoc, List.append_assoc] at inside
    rcases inside.of_append_cons comma with here | there
    · exact (mentions_of_render is left first own here).mono (List.subset_append_left ..)
    · rcases close.cases there with there | ⟨_, none, _⟩
      · exact (mentions_of_render is right second other there).mono (List.subset_append_right ..)
      · cases none
  | .again _, text, rendered, stands => by
    rw [render] at rendered
    cases rendered

theorem marked_of_renderItems (is : IsNeeds word) : ∀ (items : List Value) (text : List Char),
    renderItems .compact items = .ok text → Marked word (Value.stringsOfItems items) text
  | [], text, rendered => by
    rw [renderItems] at rendered
    cases rendered
    exact .close is (by decide)
  | x :: xs, text, rendered => by
    rw [renderItems] at rendered
    obtain ⟨first, own, rendered⟩ := ok_of_bind rendered
    obtain ⟨others, items, rendered⟩ := ok_of_bind rendered
    cases rendered
    refine ⟨',', first ++ others, rfl, is.not_mem (by decide), fun stands => ?_⟩
    rcases (marked_of_renderItems is xs others items).cases stands with here | there
    · exact (mentions_of_render is x first own here).mono (List.subset_append_left ..)
    · exact there.mono (List.subset_append_right ..)

theorem marked_of_renderEntries (is : IsNeeds word) :
    ∀ (entries : List (Scalar × Value)) (text : List Char),
    renderEntries .compact entries = .ok text → Marked word (Value.stringsOfEntries entries) text
  | [], text, rendered => by
    rw [renderEntries] at rendered
    cases rendered
    exact .close is (by decide)
  | (k, x) :: xs, text, rendered => by
    rw [renderEntries] at rendered
    obtain ⟨name, named, rendered⟩ := ok_of_bind rendered
    obtain ⟨first, own, rendered⟩ := ok_of_bind rendered
    obtain ⟨others, entries, rendered⟩ := ok_of_bind rendered
    cases rendered
    refine ⟨',', name ++ Spacing.compact.key ++ first ++ others, rfl, is.not_mem (by decide),
      among_of_entry is named (mentions_of_render is x first own) ?_⟩
    exact marked_of_renderEntries is xs others entries

end

end Json

namespace Value

variable {word : List Char} {v : Value}

/-- **Mentioned words.** Where a word like the start of a reference stands in the text of a value,
the value mentions it. -/
theorem mentions_of_expressionText (is : IsNeeds word) {text : String}
    (told : v.expressionText = .ok text) (stands : Stands word text.toList) : v.Mentions word := by
  have absent (none : 'd' ∉ text.toList) : v.Mentions word :=
    absurd stands.isInfix (is.not_isInfix none)
  unfold expressionText at told
  split at told
  · cases told
    exact absent (by decide)
  · next b =>
    cases told
    exact absent (by cases b <;> decide)
  · split at told
    · next own written =>
      have same : own = text := Except.ok.inj told
      exact absent (same ▸ Numeral.d_not_mem_text? written)
    · cases told
  · next d =>
    have written : d.text .plain = text := Except.ok.inj told
    exact absent (written ▸ Double.d_not_mem_text (by decide) (by decide) d)
  · cases told
    exact ⟨text, List.mem_singleton_self _, stands.isInfix⟩
  · unfold Json.text at told
    cases rendered : Json.render .compact v.opened with
    | error u =>
      rw [rendered] at told
      cases told
    | ok own =>
      rw [rendered] at told
      cases told
      rw [String.toList_ofList] at stands
      exact (Json.mentions_of_render is _ _ rendered stands).of_inside (inside_opened v)

end Value
end Rehearsal
