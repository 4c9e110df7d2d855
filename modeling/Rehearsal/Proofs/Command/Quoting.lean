import Rehearsal.Command.Script
import Rehearsal.Proofs.Text.Cut
import Rehearsal.Proofs.Text.Overlap
import Rehearsal.Shell.Run

/-! The script of a command begins with a change to its directory. Whatever the directory is named,
its name is one word of the script and arrives as one argument: no character of it is taken for an
operator, an expansion or a pattern. -/

namespace Rehearsal

open Command Text

variable {c d : Char} {fuel : Nat} {s rest inner text : List Char}

namespace Command

theorem ne_of_isSafe (safe : isSafe c = true) (other : isSafe d = false) : c ≠ d := by
  rintro rfl
  exact Bool.false_ne_true (other.symm.trans safe)

end Command

namespace Shell

open Lexer Expansion

variable {w : Word} {atoms : List Atom}

/-! ### Words that stand for themselves -/

/-- A part that expands to itself: quotes, or a character that is quoted or needs no quotes. -/
inductive Part.Stands : Part → Atom → Prop where
  | char {c : Char} {quoted : Bool} (plain : quoted = true ∨ isSafe c = true) :
      Stands (.char c quoted) (.glyph ⟨c, quoted⟩ false)
  | quotes : Stands .quotes .mark

/-- That a word stands for a text, which it is whatever variables and files there are. -/
def Word.Spells (w : Word) (text : List Char) : Prop :=
  ∃ atoms, List.Forall₂ Part.Stands w atoms ∧ Atom.text atoms = text

namespace Word.Spells

theorem nil : Spells [] [] := ⟨[], .nil, rfl⟩

theorem char {quoted : Bool} (plain : quoted = true ∨ isSafe c = true) (spells : Spells w text) :
    Spells (.char c quoted :: w) (c :: text) := by
  obtain ⟨atoms, stand, rfl⟩ := spells
  exact ⟨_, .cons (.char plain) stand, rfl⟩

theorem quotes (spells : Spells w text) : Spells (.quotes :: w) text := by
  obtain ⟨atoms, stand, rfl⟩ := spells
  exact ⟨_, .cons .quotes stand, rfl⟩

theorem literal (inner : List Char) (spells : Spells w text) :
    Spells (Word.literal inner ++ w) (inner ++ text) := by
  induction inner with
  | nil => exact spells
  | cons c inner ih => exact .char (.inl rfl) ih

theorem not_mem (spells : Spells w text) (other : isSafe c = false) : .char c false ∉ w := by
  obtain ⟨atoms, stand, rfl⟩ := spells
  induction stand with
  | nil => exact List.not_mem_nil
  | cons first _ ih =>
    intro member
    cases member with
    | head =>
      cases first with
      | char plain => simp [other] at plain
    | tail _ member => exact ih member

theorem ne_nil (spells : Spells w text) (nonempty : text ≠ []) : w ≠ [] := by
  rintro rfl
  obtain ⟨_, stand, rfl⟩ := spells
  cases stand
  exact nonempty rfl

end Word.Spells

/-! ### Reading a quoted word -/

namespace Lexer

theorem ne_of_endsWord (ends : endsWord c = true) (other : endsWord d = false) : c ≠ d := by
  rintro rfl
  exact Bool.false_ne_true (other.symm.trans ends)

theorem endsWord_of_isSafe (safe : isSafe c = true) : endsWord c = false := by
  rw [endsWord, Bool.eq_false_iff]
  intro ends
  have all : (" \t\n;&|<>()".toList.all fun d => !isSafe d) = true := by decide
  have other := List.all_eq_true.mp all c (List.contains_iff_mem.mp ends)
  rw [safe] at other
  exact Bool.false_ne_true other

/-- That a word can end before a text. -/
def Stops (rest : List Char) : Prop := ∀ c ∈ rest.head?, endsWord c = true

theorem stops_blank (s : List Char) : Stops (' ' :: s) := by
  rintro c ⟨⟩
  decide

/-- That a text is read as a word, whatever stands behind the word. -/
def Reads (text : List Char) (w : Word) : Prop :=
  ∀ ⦃rest⦄, Stops rest → ∀ ⦃fuel⦄, text.length < fuel →
    parts .bare fuel (text ++ rest) = .ok (w, rest)

namespace Reads

theorem nil : Reads [] [] := by
  intro rest stops fuel enough
  obtain ⟨fuel, rfl⟩ := Nat.exists_eq_succ_of_ne_zero (Nat.ne_zero_of_lt enough)
  cases rest with
  | nil => rfl
  | cons c rest =>
    have ends : endsWord c = true := stops c rfl
    rw [List.nil_append, parts]
    · simp [ends, ne_of_endsWord ends (by decide : endsWord backQuote = false),
        ne_of_endsWord ends (by decide : endsWord singleQuote = false),
        ne_of_endsWord ends (by decide : endsWord doubleQuote = false)]
      rfl
    · exact fun same _ => ne_of_endsWord ends (by decide) same
    · exact fun _ _ same _ => ne_of_endsWord ends (by decide) same
    · exact ne_of_endsWord ends (by decide)

theorem bare (safe : isSafe c = true) (reads : Reads text w) :
    Reads (c :: text) (.char c false :: w) := by
  intro rest stops fuel enough
  obtain ⟨fuel, rfl⟩ := Nat.exists_eq_succ_of_ne_zero (Nat.ne_zero_of_lt enough)
  have inner := reads stops (Nat.lt_of_succ_lt_succ enough)
  rw [List.cons_append, parts]
  · simp [inner, endsWord_of_isSafe safe, Mode.isBare,
      ne_of_isSafe safe (by decide : isSafe backQuote = false),
      ne_of_isSafe safe (by decide : isSafe singleQuote = false),
      ne_of_isSafe safe (by decide : isSafe doubleQuote = false)]
  · exact fun same _ => ne_of_isSafe safe (by decide) same
  · exact fun _ _ same _ => ne_of_isSafe safe (by decide) same
  · exact ne_of_isSafe safe (by decide)

theorem single (closed : '\'' ∉ inner) (reads : Reads text w) :
    Reads ('\'' :: inner ++ '\'' :: text) (.quotes :: Word.literal inner ++ w) := by
  intro rest stops fuel enough
  simp only [List.cons_append, List.length_cons, List.length_append] at enough
  obtain ⟨fuel, rfl⟩ := Nat.exists_eq_succ_of_ne_zero (Nat.ne_zero_of_lt enough)
  have inner' := reads stops (show text.length < fuel by omega)
  have cut := cutAt?_append closed (text ++ rest)
  rw [List.append_assoc, List.cons_append, List.cons_append, parts]
  · simp [backQuote, singleQuote, Mode.isBare, cut, inner']
  all_goals simp

theorem double (reads : Reads text w) :
    Reads ('"' :: '\'' :: '"' :: text) (.quotes :: .char '\'' true :: w) := by
  intro rest stops fuel enough
  simp only [List.length_cons] at enough
  obtain ⟨fuel, rfl⟩ : ∃ n, fuel = n + 3 := ⟨fuel - 3, by omega⟩
  have quoted : parts .quotes (fuel + 2) ('\'' :: '"' :: (text ++ rest)) =
      pure ([.char '\'' true], text ++ rest) := by
    simp [parts, singleQuote, doubleQuote, backQuote, Mode.isBare]
  have further := reads stops (show text.length < fuel + 2 by omega)
  rw [List.cons_append, List.cons_append, List.cons_append, parts]
  · simp [singleQuote, doubleQuote, backQuote, Mode.isBare, quoted, further]
  all_goals simp

theorem of_safe (safe : ∀ c ∈ text, isSafe c = true) :
    ∃ w, Reads text w ∧ w.Spells text := by
  induction text with
  | nil => exact ⟨[], nil, .nil⟩
  | cons c text ih =>
    obtain ⟨first, others⟩ := List.forall_mem_cons.mp safe
    obtain ⟨w, reads, spells⟩ := ih others
    exact ⟨_, reads.bare first, spells.char (.inr first)⟩

theorem of_quoted (before text : List Char) (closed : '\'' ∉ before) :
    ∃ w, Reads ('\'' :: before ++ (text.flatMap fun c =>
        if c = '\'' then ['\'', '"', '\'', '"', '\''] else [c]) ++ ['\'']) w ∧
      w ≠ [] ∧ w.Spells (before ++ text) := by
  -- On the text that is left, with what stands since the last quote before it.
  induction text generalizing before with
  | nil =>
    refine ⟨.quotes :: (Word.literal before ++ []), ?_, List.cons_ne_nil _ _,
      (Word.Spells.nil.literal before).quotes⟩
    simpa using Reads.nil.single closed
  | cons c text ih =>
    by_cases quote : c = '\''
    · subst quote
      obtain ⟨w, reads, -, spells⟩ := ih [] List.not_mem_nil
      refine ⟨.quotes :: (Word.literal before ++ .quotes :: .char '\'' true :: w), ?_,
        List.cons_ne_nil _ _, ((spells.char (.inl rfl)).quotes.literal before).quotes⟩
      simpa using reads.double.single closed
    · obtain ⟨w, reads, nonempty, spells⟩ :=
        ih (before ++ [c]) (by simpa using ⟨closed, Ne.symm quote⟩)
      exact ⟨w, by simpa [quote] using reads, nonempty, by simpa using spells⟩

end Reads

/-- A word that is quoted has its quotes around it, and needs none if all of it is safe. -/
theorem toList_quoteWord (word : String) :
    ((quoteWord word).toList = word.toList ∧ word.toList ≠ [] ∧
      ∀ c ∈ word.toList, isSafe c = true) ∨
    (quoteWord word).toList = '\'' :: [] ++ (word.toList.flatMap fun c =>
      if c = '\'' then ['\'', '"', '\'', '"', '\''] else [c]) ++ ['\''] := by
  rw [quoteWord]
  split
  · next plain =>
    simp only [Bool.and_eq_true, Bool.not_eq_true', List.isEmpty_eq_false_iff, List.all_eq_true]
      at plain
    exact .inl ⟨rfl, plain⟩
  · exact .inr (by rw [String.toList_ofList, replaceAll_singleton]; rfl)

/-- Every text is read back from the word that it is quoted as. -/
theorem exists_reads_quoteWord (word : String) :
    ∃ w, Reads (quoteWord word).toList w ∧ w ≠ [] ∧ w.Spells word.toList := by
  obtain ⟨same, nonempty, safe⟩ | quoted := toList_quoteWord word
  · obtain ⟨w, reads, spells⟩ := Reads.of_safe safe
    exact ⟨w, same ▸ reads, spells.ne_nil nonempty, spells⟩
  · rw [quoted]
    exact Reads.of_quoted [] word.toList List.not_mem_nil

end Lexer

/-! ### Expanding a word that stands for itself -/

namespace Atom

theorem fields_of_stands {separators : List Char} {current : List Glyph}
    (stand : List.Forall₂ Part.Stands w atoms) :
    fields separators (some current) atoms = [current ++ glyphs atoms] := by
  induction stand generalizing current with
  | nil => simp [fields, glyphs]
  | cons first _ ih =>
    cases first with
    | char => simp [fields, ih, glyphs]
    | quotes => simp [fields, ih, glyphs]

theorem fields_of_stands_start {separators : List Char} (nonempty : w ≠ [])
    (stand : List.Forall₂ Part.Stands w atoms) :
    fields separators none atoms = [glyphs atoms] := by
  cases stand with
  | nil => contradiction
  | cons first stand =>
    cases first with
    | char => simp [fields, fields_of_stands stand, glyphs]
    | quotes => simp [fields, fields_of_stands stand, glyphs]

end Atom

namespace Expansion

theorem braces_of_spells (spells : w.Spells text) (fuel : Nat) : braces fuel w = [w] := by
  cases fuel with
  | zero => rfl
  | succ fuel =>
    have closed : w.dropWhile (fun part => !(part == .char '\x7b' false)) = [] := by
      refine List.dropWhile_eq_nil_iff.mpr fun part member => ?_
      have other : part ≠ .char '\x7b' false := fun same =>
        spells.not_mem (by decide) (same ▸ member)
      simpa using other
    simp only [braces, closed]

theorem tilde_of_spells (spells : w.Spells text) (m : Machine) : tilde m w = w := by
  have other : .char '~' false ∉ w := spells.not_mem (by decide)
  unfold tilde
  split
  · simp at other
  · rfl

theorem complete_of_stands (stand : List.Forall₂ Part.Stands w atoms) (m : Machine) :
    complete m (Atom.glyphs atoms) = [String.ofList (Atom.text atoms)] := by
  have inactive : Pattern.isActive (Atom.glyphs atoms) = false := by
    induction stand with
    | nil => rfl
    | cons first _ ih =>
      cases first with
      | quotes => exact ih
      | char plain =>
        obtain rfl | safe := plain
        · exact ih
        · have star := ne_of_isSafe safe (by decide : isSafe '*' = false)
          have mark := ne_of_isSafe safe (by decide : isSafe '?' = false)
          have bracket := ne_of_isSafe safe (by decide : isSafe '[' = false)
          simpa [Pattern.isActive, Atom.glyphs, star, mark, bracket] using ih
  simp [complete, inactive, Atom.text]

end Expansion

namespace Run

theorem expandParts_of_stands (stand : List.Forall₂ Part.Stands w atoms)
    (enough : w.length < fuel) : expandParts fuel w = pure atoms := by
  induction stand generalizing fuel with
  | nil =>
    cases fuel <;> rfl
  | cons first _ ih =>
    rw [List.length_cons] at enough
    obtain ⟨fuel, rfl⟩ : ∃ n, fuel = n + 2 := ⟨fuel - 2, by omega⟩
    rw [expandParts, ih (by omega)]
    cases first with
    | char => simp [expandPart]
    | quotes => simp [expandPart]

theorem expandWords_of_spells {ws : List Word} {texts : List (List Char)}
    (spell : List.Forall₂ (fun (w : Word) text => w ≠ [] ∧ w.Spells text) ws texts)
    (enough : ∀ w ∈ ws, w.length + ws.length < fuel) (m : Machine) :
    (expandWords fuel ws).run.run m = (.ok (texts.map String.ofList), m) := by
  induction spell generalizing fuel with
  | nil => cases fuel <;> rfl
  | @cons w text ws texts first _ ih =>
    obtain ⟨nonempty, spells⟩ := first
    obtain ⟨here, later⟩ := List.forall_mem_cons.mp enough
    obtain ⟨fuel, rfl⟩ : ∃ n, fuel = n + 1 := ⟨fuel - 1, by omega⟩
    have others : (expandWords fuel ws).run.run m = (.ok (texts.map String.ofList), m) := by
      refine ih fun v member => ?_
      have bound := later v member
      rw [List.length_cons] at bound
      omega
    have whole : w ≠ [.quotes, .variable ['@'] [] true] := by
      rintro rfl
      obtain ⟨_, stand, -⟩ := spells
      cases stand with
      | cons _ stand => cases stand with | cons second _ => cases second
    have unbraced := braces_of_spells spells (w.length + 1)
    have kept := tilde_of_spells spells
    obtain ⟨atoms, stand, rfl⟩ := spells
    have parts : expandParts fuel w = pure atoms :=
      expandParts_of_stands stand (by rw [List.length_cons] at here; omega)
    have first : expandWords (fuel + 1) (w :: ws) = (do
        let _ ← get
        let _ ← get
        let _ ← get
        (String.ofList (Atom.text atoms) :: ·) <$> expandWords fuel ws) := by
      rw [expandWords, unbraced]
      simp [whole, kept, parts, Atom.fields_of_stands_start nonempty stand,
        complete_of_stands stand]
    have applied : ((expandWords (fuel + 1) (w :: ws)).run.run m) =
        ((String.ofList (Atom.text atoms) :: ·) <$> expandWords fuel ws).run.run m := by
      rw [first]
      rfl
    rw [applied, ExceptT.run_map, StateT.run_map, others]
    rfl

end Run

/-! ### Tokens of a script -/

namespace Lexer

theorem redirection?_eq_none (ahead : ∀ c ∈ (s.dropWhile Char.isDigit).head?,
    c ≠ '<' ∧ c ≠ '>' ∧ c ≠ '&') : redirection? s = none := by
  have behind : s.drop (s.takeWhile Char.isDigit).length = s.dropWhile Char.isDigit := by
    conv => lhs; arg 2; rw [← List.takeWhile_append_dropWhile (p := Char.isDigit) (l := s)]
    exact List.drop_left ..
  rw [redirection?, behind]
  cases same : s.dropWhile Char.isDigit with
  | nil => simp [redirections, after?]
  | cons c rest =>
    obtain ⟨less, greater, both⟩ := ahead c (by rw [same]; rfl)
    simp [redirections, after?, less.symm, greater.symm, both.symm]

theorem arithmetic?_eq_none (other : c ≠ '(') : arithmetic? (c :: s) = none := by
  unfold arithmetic?
  split
  · simp_all
  · rfl

theorem operator_eq_none (inside : endsWord c = false) :
    (operators.findSome? fun o => (after? o.toList (c :: s)).map (o, ·)) = none := by
  simp [operators, after?, ne_of_endsWord (by decide : endsWord '&' = true) inside,
    ne_of_endsWord (by decide : endsWord '|' = true) inside,
    ne_of_endsWord (by decide : endsWord ';' = true) inside,
    ne_of_endsWord (by decide : endsWord '\n' = true) inside,
    ne_of_endsWord (by decide : endsWord '(' = true) inside,
    ne_of_endsWord (by decide : endsWord ')' = true) inside]

/-- That a text begins with a word, and not with the number of a stream before a redirection. -/
structure Begins (c : Char) (s : List Char) : Prop where
  inside : endsWord c = false
  plain : c ≠ '#' ∧ c ≠ '\\'
  ahead : ∀ d ∈ ((c :: s).dropWhile Char.isDigit).head?, d ≠ '<' ∧ d ≠ '>' ∧ d ≠ '&'

theorem tokens_word (begins : Begins c (s ++ rest)) (reads : Reads (c :: s) w) (stops : Stops rest)
    (line : Nat) :
    tokens (fuel + 1) line (c :: s ++ rest) =
      (tokens fuel (line + (c :: s).count '\n') rest).map (⟨line, .word w⟩ :: ·) := by
  have other {d : Char} (ends : endsWord d = true) : c ≠ d :=
    (ne_of_endsWord ends begins.inside).symm
  have word : parts .bare (s.length + rest.length + 2) (c :: (s ++ rest)) = pure (w, rest) :=
    reads stops (by rw [List.length_cons]; omega)
  have lines : (c :: (s ++ rest)).take (s.length + rest.length + 1 - rest.length) = c :: s := by
    rw [show s.length + rest.length + 1 - rest.length = s.length + 1 by omega,
      List.take_succ_cons, List.take_left]
  rw [List.cons_append, tokens]
  simp [other (by decide : endsWord ' ' = true), other (by decide : endsWord '\t' = true),
    begins.plain, arithmetic?_eq_none (other (by decide : endsWord '(' = true)), after?,
    (other (by decide : endsWord '<' = true)).symm, redirection?_eq_none begins.ahead,
    operator_eq_none begins.inside, word, lines]
  rfl

theorem Begins.of_safe (safe : ∀ d ∈ c :: s, isSafe d = true) (rest : List Char) :
    Begins c (s ++ ' ' :: rest) where
  inside := endsWord_of_isSafe (safe c List.mem_cons_self)
  plain := ⟨ne_of_isSafe (safe c List.mem_cons_self) (by decide),
    ne_of_isSafe (safe c List.mem_cons_self) (by decide)⟩
  ahead := by
    rw [← List.cons_append, List.dropWhile_append]
    split
    · simp [show ' '.isDigit = false by decide]
    · next some =>
      rw [List.head?_append_of_ne_nil _ (by simpa using some)]
      intro d member
      have safe := safe d ((List.dropWhile_sublist _).subset (List.mem_of_mem_head? member))
      exact ⟨ne_of_isSafe safe (by decide), ne_of_isSafe safe (by decide),
        ne_of_isSafe safe (by decide)⟩

theorem begins_quoteWord (word : String) (rest : List Char) :
    ∃ c s, (quoteWord word).toList = c :: s ∧ Begins c (s ++ ' ' :: rest) := by
  obtain ⟨same, nonempty, safe⟩ | quoted := toList_quoteWord word
  · obtain ⟨c, s, text⟩ := List.exists_cons_of_ne_nil nonempty
    exact ⟨c, s, same.trans text, .of_safe (text ▸ safe) rest⟩
  · refine ⟨_, _, quoted, by decide, by decide, ?_⟩
    simp [show '\''.isDigit = false by decide]

theorem tokens_blank (line : Nat) : tokens (fuel + 1) line (' ' :: s) = tokens fuel line s := by
  rw [tokens]
  rfl

theorem tokens_and (line : Nat) : tokens (fuel + 1) line ('&' :: '&' :: ' ' :: s) =
    (tokens fuel line (' ' :: s)).map (⟨line, .operator "&&"⟩ :: ·) := by
  have bare : redirection? ('&' :: '&' :: ' ' :: s) = none := by
    simp [redirection?, redirections, after?]
  rw [tokens]
  simp [arithmetic?_eq_none, after?, bare, operators]
  rfl

end Lexer
end Shell

namespace Command

open Shell Lexer

/-- The script goes on with the command, after the tool manager if it is there. -/
theorem exists_script (command directory : String) (toolchain : Option String) :
    ∃ start ∈ ["", "eval \"$(mise activate bash)\" && "],
      script command directory toolchain =
        "cd " ++ quoteWord directory ++ " && " ++ (start ++ command) := by
  have plain : "cd " ++ quoteWord directory ++ " && " ++ command =
      "cd " ++ quoteWord directory ++ " && " ++ ("" ++ command) := by rw [String.empty_append]
  cases toolchain with
  | none => exact ⟨_, List.mem_cons_self, plain⟩
  | some version =>
    by_cases unknown : version = ""
    · exact ⟨_, List.mem_cons_self, by rw [script, if_pos unknown, plain]⟩
    · refine ⟨_, List.mem_cons_of_mem _ List.mem_cons_self, ?_⟩
      have parted : " && eval \"$(mise activate bash)\" && " =
          " && " ++ "eval \"$(mise activate bash)\" && " := by decide
      simp only [script, if_neg unknown, parted, String.append_assoc]

/-- The word that calls the built-in command for changing the directory. -/
def cd : Word := [.char 'c' false, .char 'd' false]

/-- A shell that is given the script of a command calls `cd` with the directory as the only
argument, whatever the directory is named and whatever variables and files there are, and goes on
with the command if that succeeds. -/
theorem directories_arrive_whole (command directory : String) (toolchain : Option String) :
    ∃ start ∈ ["", "eval \"$(mise activate bash)\" && "], ∃ entering fuel line,
      (start ++ command).toList.length < fuel ∧
        Token.scan (script command directory toolchain).toList =
          (tokens fuel line (start ++ command).toList).map
            ([⟨1, .word cd⟩, ⟨1, .word entering⟩, ⟨line, .operator "&&"⟩] ++ ·) ∧
        ∀ m fuel, entering.length + 4 < fuel →
          (Run.expandWords fuel [cd, entering]).run.run m = (.ok ["cd", directory], m) := by
  obtain ⟨start, known, same⟩ := exists_script command directory toolchain
  have safe : ∀ c ∈ ['c', 'd'], isSafe c = true :=
    List.forall_mem_cons.mpr ⟨by decide, List.forall_mem_singleton.mpr (by decide)⟩
  have readsCd : Reads ['c', 'd'] cd := (Reads.nil.bare (by decide)).bare (by decide)
  have spellsCd : cd.Spells ['c', 'd'] := (Word.Spells.nil.char (.inr (by decide))).char
    (.inr (by decide))
  obtain ⟨entering, reads, nonempty, spells⟩ := exists_reads_quoteWord directory
  obtain ⟨c, s, text, begins⟩ := begins_quoteWord directory
    ('&' :: '&' :: ' ' :: (start ++ command).toList)
  rw [text] at reads
  have whole : (script command directory toolchain).toList =
      'c' :: ['d'] ++ ' ' :: (c :: s ++ ' ' :: '&' :: '&' :: ' ' :: (start ++ command).toList) := by
    rw [same]
    simp [text]
  refine ⟨start, known, entering, s.length + (start ++ command).toList.length + 3,
    1 + (c :: s).count '\n', by omega, ?_, fun m fuel enough => ?_⟩
  · generalize (start ++ command).toList = further at whole begins ⊢
    have size : (script command directory toolchain).toList.length + 1 =
        s.length + further.length + 3 + 6 := by
      simp only [whole, List.cons_append, List.nil_append, List.length_cons, List.length_append]
      omega
    rw [Token.scan, size, whole, tokens_word (.of_safe safe _) readsCd (stops_blank _),
      tokens_blank, tokens_word begins reads (stops_blank _), tokens_blank, tokens_and,
      tokens_blank]
    have unbroken : 1 + ['c', 'd'].count '\n' = 1 := rfl
    rw [unbroken]
    cases tokens (s.length + further.length + 3) (1 + (c :: s).count '\n') further <;> rfl
  · have spell : List.Forall₂ (fun (w : Word) text => w ≠ [] ∧ w.Spells text) [cd, entering]
        [['c', 'd'], directory.toList] :=
      .cons ⟨List.cons_ne_nil _ _, spellsCd⟩ (.cons ⟨nonempty, spells⟩ .nil)
    have bound : ∀ w ∈ [cd, entering], w.length + 2 < fuel := by
      simp only [cd, List.forall_mem_cons, List.length_cons, List.length_nil]
      exact ⟨by omega, by omega, List.forall_mem_nil _⟩
    simpa using Run.expandWords_of_spells spell bound m

end Command
end Rehearsal
