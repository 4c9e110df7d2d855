import Rehearsal.Expression.Placeholder
import Rehearsal.Proofs.Expression.Lexed
import Rehearsal.Proofs.Text.Cut

/-! A `Template` is a text with canonical placeholders in it, a `SpacedTemplate` one with any blanks
in its placeholders. These placeholders are all that is found (`placeholders_are_extracted`), and a
canonical one is replaced where it stands unless the same one stands before it (`replaceFirst_of`).
-/

namespace Rehearsal.Expression

open Rehearsal.Text

namespace Placeholder

/-- An expression whose placeholder has nothing but a space at each side of it. -/
structure IsCanonical (expression : String) : Prop where
  nonempty : expression.toList ≠ []
  unclosed : '\x7d' ∉ expression.toList
  trimmed : trim expression.toList = expression.toList

instance (expression : String) : Decidable (IsCanonical expression) :=
  decidable_of_iff (expression.toList ≠ [] ∧ '\x7d' ∉ expression.toList ∧
      trim expression.toList = expression.toList)
    ⟨fun ⟨nonempty, unclosed, trimmed⟩ => ⟨nonempty, unclosed, trimmed⟩,
      fun ⟨nonempty, unclosed, trimmed⟩ => ⟨nonempty, unclosed, trimmed⟩⟩

theorem isCanonical_of_isPath {path : String} (is : IsPath path.toList)
    (nonempty : path.toList ≠ []) : IsCanonical path where
  nonempty := nonempty
  unclosed := fun member => absurd (is.isPartChar_or member) (by decide)
  trimmed := is.trim_eq

/-- A text in which no placeholder begins. -/
def IsFree (s : List Char) : Prop := ¬opening <:+: s

instance (s : List Char) : Decidable (IsFree s) := inferInstanceAs (Decidable (¬_))

theorem isFree_nil : IsFree [] := by decide

/-! ### A placeholder at the start of a text -/

/-- The inside of a placeholder reaches to the first closing brace, which another one follows. -/
theorem inside?_eq_some_iff {s body : List Char} : inside? s = some body ↔
    body ≠ [] ∧ '\x7d' ∉ body ∧ ∃ rest, s = opening ++ (body ++ (closing ++ rest)) := by
  constructor
  · intro found
    obtain ⟨text, opened, found⟩ := Option.bind_eq_some_iff.mp found
    obtain ⟨rest, closed, found⟩ := Option.bind_eq_some_iff.mp found
    split at found
    · cases found
    · next some =>
      cases found
      refine ⟨List.isEmpty_eq_false_iff.mp (Bool.eq_false_iff.mpr some), ?_, rest, ?_⟩
      · exact fun member => absurd (List.mem_takeWhile_imp member) (by decide)
      · rw [← after?_eq_some closed, List.takeWhile_append_dropWhile, ← after?_eq_some opened]
  · rintro ⟨some, unclosed, rest, rfl⟩
    have inside : ∀ c ∈ body, decide (c ≠ '\x7d') = true :=
      fun c member => decide_eq_true fun same => unclosed (same ▸ member)
    have stops : (closing ++ rest).takeWhile (· ≠ '\x7d') = [] := rfl
    have starts : (closing ++ rest).dropWhile (· ≠ '\x7d') = closing ++ rest := rfl
    rw [inside?, after?_append, Option.bind_eq_bind, Option.bind_some]
    dsimp only
    rw [List.takeWhile_append_of_pos inside, List.dropWhile_append_of_pos inside, stops, starts,
      after?_append, List.append_nil, Option.bind_some, if_neg]
    exact fun empty => some (List.isEmpty_iff.mp empty)

/-- Blanks before and after an expression. -/
structure Spacing where
  before : List Char
  after : List Char
  before_blank : ∀ c ∈ before, isBlank c = true
  after_blank : ∀ c ∈ after, isBlank c = true

namespace Spacing

def single : Spacing where
  before := [' ']
  after := [' ']
  before_blank := List.all_eq_true.mp rfl
  after_blank := List.all_eq_true.mp rfl

variable (spacing : Spacing) {expression : String} (canonical : IsCanonical expression)

def around (expression : String) : List Char :=
  opening ++ (spacing.before ++ (expression.toList ++ spacing.after) ++ closing)

theorem around_ne_nil (expression : String) : spacing.around expression ≠ [] :=
  List.cons_ne_nil _ _

include canonical

theorem inside?_around (rest : List Char) : inside? (spacing.around expression ++ rest) =
    some (spacing.before ++ (expression.toList ++ spacing.after)) := by
  refine inside?_eq_some_iff.mpr ⟨?_, ?_, rest, by simp [around]⟩
  · simp [canonical.nonempty]
  · simp only [List.mem_append, not_or]
    exact ⟨not_mem_of_blank spacing.before_blank (by decide), canonical.unclosed,
      not_mem_of_blank spacing.after_blank (by decide)⟩

theorem length?_around (rest : List Char) :
    length? (spacing.around expression ++ rest) = some (spacing.around expression).length := by
  rw [length?, spacing.inside?_around canonical, Option.map_some, around]
  simp only [List.length_append, opening, closing, List.length_cons, List.length_nil]
  congr 1
  omega

theorem expression_around :
    Placeholder.expression (spacing.around expression) = expression.toList := by
  have inside : (spacing.around expression).drop 3 =
      spacing.before ++ (expression.toList ++ spacing.after) ++ ['\x7d'] ++ ['\x7d'] := by
    rw [List.append_assoc _ ['\x7d'] ['\x7d']]
    rfl
  rw [Placeholder.expression, inside, List.dropLast_concat, List.dropLast_concat,
    trim_blank_append spacing.before_blank, trim_append_blanks spacing.after_blank,
    canonical.trimmed]

end Spacing

theorem of_eq_around (expression : String) : of expression = Spacing.single.around expression := by
  simp [of, Spacing.around, Spacing.single]

theorem of_ne_nil (expression : String) : of expression ≠ [] := List.cons_ne_nil _ _

theorem length?_of {expression : String} (canonical : IsCanonical expression) (rest : List Char) :
    length? (of expression ++ rest) = some (of expression).length := by
  rw [of_eq_around]
  exact Spacing.single.length?_around canonical rest

theorem expression_of {expression : String} (canonical : IsCanonical expression) :
    Placeholder.expression (of expression) = expression.toList := by
  rw [of_eq_around]
  exact Spacing.single.expression_around canonical

/-! ### Where a placeholder begins -/

theorem length?_eq_none {w s : List Char} (free : IsFree w) (dollar : ∀ c ∈ s.head?, c = '$')
    {before rest : List Char} (same : w = before ++ rest) (some : rest ≠ []) :
    length? (rest ++ s) = none := by
  have absent : ¬opening <+: rest := fun starts =>
    free (starts.isInfix.trans (same ▸ (List.suffix_append before rest).isInfix))
  have other : ¬opening <+: rest ++ s := by
    rintro ⟨tail, text⟩
    rcases List.append_eq_append_iff.mp text with ⟨gap, own, -⟩ | ⟨gap, own, following⟩
    · exact absent ⟨gap, own.symm⟩
    · cases gap with
      | nil =>
        rw [List.append_nil] at own
        exact absent (own ▸ List.prefix_rfl)
      | cons c gap =>
        obtain rfl := dollar c (by rw [following]; rfl)
        cases rest with
        | nil => exact some rfl
        | cons d rest =>
          have braces : rest ++ '$' :: gap = ['\x7b', '\x7b'] := (List.cons.inj own).2.symm
          have member : '$' ∈ rest ++ '$' :: gap := List.mem_append_right _ List.mem_cons_self
          rw [braces] at member
          exact absurd member (by decide)
  rw [length?, inside?, after?_eq_none other]
  rfl

theorem cut_of_isFree {w : List Char} (free : IsFree w) (s : List Char)
    (dollar : ∀ c ∈ s.head?, c = '$') : cut length? (w ++ s) = w.map .plain ++ cut length? s :=
  cut_append_of_none fun _ _ same some => length?_eq_none free dollar same some

theorem cut_eq_plain {s : List Char} (free : IsFree s) : cut length? s = s.map .plain := by
  have pieces := cut_of_isFree free [] nofun
  rwa [List.append_nil, show cut length? [] = [] from rfl, List.append_nil] at pieces

theorem unwrap_of_isFree {s : List Char} (free : IsFree s) : unwrap s = s := by
  rw [unwrap, replaceFound, cut_eq_plain free]
  simp [List.flatMap_map]

/-! ### Replacing a placeholder -/

theorem not_overlapping {expression : String} (canonical : IsCanonical expression)
    {first rest : List Char} (same : of expression = first ++ rest) (begun : first ≠ [])
    (goesOn : rest ≠ []) : ¬rest <+: of expression := by
  intro starts
  have text : of expression = '$' :: '\x7b' :: ('\x7b' :: ' ' :: expression.toList ++ [' '] ++
      closing) := by simp [of, opening]
  rw [text] at same starts
  rcases first with - | ⟨c, - | ⟨d, first⟩⟩
  · exact begun rfl
  · -- What remains starts with a brace, and the placeholder with a dollar sign.
    obtain ⟨-, rfl⟩ := List.cons.inj same
    obtain ⟨tail, whole⟩ := starts
    exact absurd (List.cons.inj whole).1 (by decide)
  · -- What remains ends with a closing brace, and the placeholder has none so early.
    have later := congrArg List.length same
    have last := congrArg List.getLast? same
    simp only [List.length_append, List.length_cons] at later
    have early : rest <+: '$' :: '\x7b' :: ('\x7b' :: ' ' :: expression.toList ++ [' ']) := by
      refine List.prefix_of_prefix_length_le starts ⟨closing, rfl⟩ ?_
      simp only [List.length_append, List.length_cons]
      have two : closing.length = 2 := rfl
      omega
    have brace : '\x7d' ∈ rest := by
      refine List.mem_of_getLast? (?_ : rest.getLast? = some '\x7d')
      obtain ⟨final, ends⟩ := Option.isSome_iff_exists.mp (List.getLast?_isSome.mpr goesOn)
      rw [← List.cons_append, ← List.cons_append, List.getLast?_append, List.getLast?_append,
        ends] at last
      rw [ends]
      exact last.symm
    have member := early.subset brace
    simp [canonical.unclosed] at member

theorem replaceFirst_of {expression : String} (canonical : IsCanonical expression)
    {before : List Char} (absent : ¬of expression <:+: before) (value after : List Char) :
    replaceFirst (of expression) value (before ++ (of expression ++ after)) =
      before ++ value ++ after := by
  rw [replaceFirst, splitAt?_append]
  rintro left rest rfl some ⟨tail, text⟩
  have apart : ¬of expression <+: rest := fun starts =>
    absent (starts.isInfix.trans (List.suffix_append left rest).isInfix)
  rcases List.append_eq_append_iff.mp text with ⟨gap, own, -⟩ | ⟨gap, own, following⟩
  · exact apart ⟨gap, own.symm⟩
  · cases gap with
    | nil =>
      rw [List.append_nil] at own
      exact apart (own ▸ List.prefix_rfl)
    | cons c gap =>
      refine not_overlapping canonical own some nofun ?_
      refine List.prefix_of_prefix_length_le ⟨tail, following.symm⟩ (List.prefix_append _ _) ?_
      rw [own, List.length_append]
      exact Nat.le_add_left _ _

end Placeholder

/-! ### Templates -/

open Placeholder

/-- A canonical placeholder with the free text after it. -/
structure Slot where
  expression : String
  after : List Char
  canonical : IsCanonical expression
  free : IsFree after

def Slot.texts (slots : List Slot) : List Char :=
  slots.flatMap fun slot => of slot.expression ++ slot.after

/-- A slot with any blanks in its placeholder. -/
structure SpacedSlot extends Slot where
  spacing : Spacing

def Slot.spaced (slot : Slot) : SpacedSlot where
  toSlot := slot
  spacing := .single

namespace SpacedSlot

def texts (slots : List SpacedSlot) : List Char :=
  slots.flatMap fun slot => slot.spacing.around slot.expression ++ slot.after

theorem texts_cons (slot : SpacedSlot) (slots : List SpacedSlot) : texts (slot :: slots) =
    slot.spacing.around slot.expression ++ (slot.after ++ texts slots) :=
  List.append_assoc ..

theorem texts_map_spaced (slots : List Slot) :
    texts (slots.map Slot.spaced) = Slot.texts slots := by
  rw [texts, List.flatMap_map, Slot.texts]
  congr 1
  funext slot
  rw [of_eq_around]
  rfl

theorem dollar_of_texts (slots : List SpacedSlot) : ∀ c ∈ (texts slots).head?, c = '$' := by
  cases slots with
  | nil => nofun
  | cons slot slots =>
    rintro c ⟨⟩
    rfl

theorem ofPiece?_around (slot : SpacedSlot) :
    ofPiece? (.found (slot.spacing.around slot.expression)) = some slot.expression := by
  rw [ofPiece?, slot.spacing.expression_around slot.canonical, String.ofList_toList]

end SpacedSlot

theorem Placeholder.ofPiece?_plain (w : List Char) :
    (w.map Piece.plain).filterMap ofPiece? = [] := by
  rw [List.filterMap_map]
  exact List.filterMap_eq_nil_iff.mpr fun _ _ => rfl

theorem SpacedSlot.cut_append_texts {w : List Char} (free : IsFree w) (slots : List SpacedSlot) :
    (cut Placeholder.length? (w ++ texts slots)).filterMap ofPiece? =
      (cut Placeholder.length? (texts slots)).filterMap ofPiece? := by
  rw [cut_of_isFree free _ (dollar_of_texts slots), List.filterMap_append, ofPiece?_plain,
    List.nil_append]

theorem SpacedSlot.expressions_of_texts (slots : List SpacedSlot) :
    (cut Placeholder.length? (texts slots)).filterMap ofPiece? = slots.map (·.expression) := by
  induction slots with
  | nil => rfl
  | cons slot slots ih =>
    have found := slot.spacing.length?_around slot.canonical (slot.after ++ texts slots)
    rw [texts_cons, cut_append_of_found (slot.spacing.around_ne_nil _) found,
      List.filterMap_cons_some slot.ofPiece?_around, cut_append_texts slot.free, ih]
    rfl

/-- Free texts with placeholders between them. -/
structure Template where
  start : List Char
  free : IsFree start
  slots : List Slot

namespace Template

def text (template : Template) : String :=
  String.ofList (template.start ++ Slot.texts template.slots)

def expressions (template : Template) : List String := template.slots.map (·.expression)

end Template

/-- Free texts with placeholders between them that have any blanks in them. -/
structure SpacedTemplate where
  start : List Char
  free : IsFree start
  slots : List SpacedSlot

namespace SpacedTemplate

def text (template : SpacedTemplate) : String :=
  String.ofList (template.start ++ SpacedSlot.texts template.slots)

def expressions (template : SpacedTemplate) : List String := template.slots.map (·.expression)

theorem extract_text (template : SpacedTemplate) :
    extract template.text = template.expressions := by
  rw [extract, text, String.toList_ofList, SpacedSlot.cut_append_texts template.free,
    SpacedSlot.expressions_of_texts]
  rfl

end SpacedTemplate

namespace Template

def spaced (template : Template) : SpacedTemplate where
  start := template.start
  free := template.free
  slots := template.slots.map Slot.spaced

theorem text_spaced (template : Template) : template.spaced.text = template.text := by
  rw [SpacedTemplate.text, spaced, SpacedSlot.texts_map_spaced]
  rfl

theorem expressions_spaced (template : Template) :
    template.spaced.expressions = template.expressions :=
  List.map_map

theorem extract_text (template : Template) : extract template.text = template.expressions := by
  rw [← text_spaced, ← expressions_spaced]
  exact template.spaced.extract_text

end Template

/-- **Placeholders are extracted.** Between texts in which no placeholder begins, every placeholder
is found, in order and with nothing else, whatever blanks it has in it. -/
theorem placeholders_are_extracted :
    (∀ template : Template, extract template.text = template.expressions) ∧
      ∀ template : SpacedTemplate, extract template.text = template.expressions := by
  constructor
  · intro template
    exact template.extract_text
  · intro template
    exact template.extract_text

/-- Placeholders without blanks and with a tab and a line break, between parts of others. -/
def crowdedTemplate : SpacedTemplate where
  start := "$$\x7b".toList
  free := by decide
  slots :=
    [{ expression := "a $\x7b\x7bb"
       after := "\x7d $\x7b".toList
       canonical := by decide
       free := by decide
       spacing := ⟨[], [], nofun, nofun⟩ },
     { expression := "c"
       after := "$".toList
       canonical := by decide
       free := by decide
       spacing := ⟨['\t'], ['\n', ' '], List.all_eq_true.mp rfl, List.all_eq_true.mp rfl⟩ }]

theorem placeholders_are_extracted_crowded :
    crowdedTemplate.text =
        "$$\x7b$\x7b\x7ba $\x7b\x7bb\x7d\x7d\x7d $\x7b$\x7b\x7b\tc\n \x7d\x7d$" ∧
      extract crowdedTemplate.text = ["a $\x7b\x7bb", "c"] :=
  ⟨by decide +kernel, placeholders_are_extracted.2 crowdedTemplate⟩

end Rehearsal.Expression
