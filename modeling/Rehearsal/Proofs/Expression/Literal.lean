import Rehearsal.Proofs.Expression.Lexed
import Rehearsal.Proofs.Expression.Placeholder

/-! A text that is escaped for its quotes is one token, which reads as the text
(`Quote.length?_literal`, `Quote.unquote_literal`), and the tokens before it stay what they are
(`Lexed.append`). Escaping begins no placeholder (`Quote.isFree_escape`). -/

namespace Rehearsal.Expression

open Rehearsal.Text

/-- The quotes of quoted texts. -/
inductive Quote where
  | single
  | double
  deriving DecidableEq

namespace Quote

def mark : Quote → Char
  | single => '\''
  | double => '"'

def escape : Quote → List Char → List Char
  | single => Quoted.quoteSingle
  | double => Quoted.quoteDouble

def literal (q : Quote) (s : List Char) : List Char := q.mark :: (s ++ [q.mark])

theorem escape_append (q : Quote) (s t : List Char) :
    q.escape (s ++ t) = q.escape s ++ q.escape t := by
  cases q <;> exact List.flatMap_append

theorem escape_eq_self (q : Quote) {s : List Char}
    (plain : ∀ c ∈ s, c ≠ '\'' ∧ c ≠ '"' ∧ c ≠ '\\') : q.escape s = s := by
  induction s with
  | nil => cases q <;> rfl
  | cons c s ih =>
    obtain ⟨⟨one, two, backslash⟩, others⟩ := List.forall_mem_cons.mp plain
    have own : q.escape [c] = [c] := by
      cases q with
      | single => simp [escape, Quoted.quoteSingle, one]
      | double => simp [escape, Quoted.quoteDouble, two, backslash]
    rw [← List.singleton_append, escape_append, own, ih others]

theorem unquote_literal (q : Quote) (s : List Char) :
    Quoted.unquote (q.literal (q.escape s)) = s := by
  cases q with
  | single =>
    show Quoted.unquoteSingle (Quoted.quoteSingle s ++ ['\'']).dropLast = s
    rw [List.dropLast_concat, Quoted.unquoteSingle_quoteSingle]
  | double =>
    show Quoted.unquoteDouble (Quoted.quoteDouble s ++ ['"']).dropLast = s
    rw [List.dropLast_concat, Quoted.unquoteDouble_quoteDouble]

end Quote

/-! ### Where a literal ends -/

theorem Quoted.single?_escaped (s : List Char) {rest : List Char}
    (ends : ∀ c ∈ rest.head?, c ≠ '\'') :
    single? (quoteSingle s ++ '\'' :: rest) = some ((quoteSingle s).length + 1) := by
  induction s with
  | nil =>
    cases rest with
    | nil => rfl
    | cons c rest =>
      have other := ends c rfl
      simp [quoteSingle, single?, other]
  | cons c s ih =>
    by_cases quote : c = '\''
    · subst quote
      have pair : quoteSingle ('\'' :: s) = '\'' :: '\'' :: quoteSingle s := rfl
      rw [pair, List.cons_append, List.cons_append, single?, ih]
      rfl
    · have own : quoteSingle (c :: s) = c :: quoteSingle s := by simp [quoteSingle, quote]
      rw [own, List.cons_append, single?, ih]
      · rfl
      · exact fun _ same _ => quote same
      · exact quote

theorem Quoted.double?_escaped (s rest : List Char) :
    double? (quoteDouble s ++ '"' :: rest) = some ((quoteDouble s).length + 1) := by
  induction s with
  | nil => rfl
  | cons c s ih =>
    by_cases escaped : c = '\\' ∨ c = '"'
    · have pair : quoteDouble (c :: s) = '\\' :: c :: quoteDouble s := by
        simp [quoteDouble, escaped]
      have line : c ≠ '\n' := by rcases escaped with rfl | rfl <;> decide
      rw [pair, List.cons_append, List.cons_append, double?, if_neg line, ih]
      rfl
    · obtain ⟨backslash, quote⟩ := not_or.mp escaped
      have own : quoteDouble (c :: s) = c :: quoteDouble s := by simp [quoteDouble, escaped]
      rw [own, List.cons_append, double?, ih]
      · rfl
      · exact quote
      · exact fun same _ => backslash same
      · exact fun _ _ same _ => backslash same

theorem Quote.length?_literal (q : Quote) (s : List Char) {rest : List Char}
    (ends : q = single → ∀ c ∈ rest.head?, c ≠ '\'') :
    Quoted.length? (q.literal (q.escape s) ++ rest) = some (q.literal (q.escape s)).length := by
  have text : q.literal (q.escape s) ++ rest = q.mark :: (q.escape s ++ q.mark :: rest) := by
    simp [literal]
  have length : (q.literal (q.escape s)).length = (q.escape s).length + 1 + 1 := by
    simp [literal]
  rw [text, length]
  cases q with
  | single => exact congrArg (Option.map (· + 1)) (Quoted.single?_escaped s (ends rfl))
  | double => exact congrArg (Option.map (· + 1)) (Quoted.double?_escaped s rest)

/-! ### Texts before a literal -/

theorem Quote.lexeme?_mark (q : Quote) (s : List Char) :
    lexeme? (q.mark :: s) = (Quoted.length? (q.mark :: s)).map (TokenKind.quoted, ·) := by
  have number : numeral? (q.mark :: s) = none := by cases q <;> rfl
  have operator : operator? (q.mark :: s) = none := by cases q <;> rfl
  have punctuation : punctuation? (q.mark :: s) = none := by cases q <;> rfl
  have name : name? (q.mark :: s) = none := by cases q <;> rfl
  rw [lexeme?, number, operator, punctuation, name]
  cases Quoted.length? (q.mark :: s) <;> rfl

theorem Lexed.length?_of_mark {q : Quote} {position : Nat} {s : List Char} {ts : List Token}
    (lexed : Lexed position (q.mark :: s) ts) :
    (Quoted.length? (q.mark :: s)).isSome = true := by
  have visible : isBlank q.mark = false := by cases q <;> decide
  generalize same : q.mark :: s = text at lexed
  cases lexed with
  | nil => cases same
  | blank blank =>
    obtain ⟨rfl, -⟩ := List.cons.inj same
    rw [visible] at blank
    cases blank
  | token _ found =>
    rw [← same, q.lexeme?_mark] at found
    obtain ⟨n, own, -⟩ := Option.map_eq_some_iff.mp found
    rw [← same, own]
    rfl

theorem getLast?_cons_of_ne_nil {c : Char} {s : List Char} (some : s ≠ []) :
    (c :: s).getLast? = s.getLast? := by
  cases s with
  | nil => exact absurd rfl some
  | cons d s => rfl

/-- In a quoted text that ends, its end does not depend on what follows, unless a further quote
does. Where two quotes are left without an end, the second one is no token. -/
theorem Quoted.single?_append {s rest : List Char} {n : Nat} (found : single? s = some n)
    (lexed : ∃ position ts, Lexed position (s.drop n) ts)
    (apart : rest.head? = some '\'' → s.getLast? ≠ some '\'') :
    single? (s ++ rest) = some n := by
  have nonempty {s : List Char} {m : Nat} (closed : single? s = some m) : s ≠ [] := by
    rintro rfl
    cases closed
  fun_induction single? s generalizing n with
  | case1 => cases found
  | case2 s m closed ih =>
    cases found
    have later := ih closed (by simpa using lexed)
      (by rwa [List.getLast?_cons_cons, getLast?_cons_of_ne_nil (nonempty closed)] at apart)
    rw [List.cons_append, List.cons_append, single?, later]
  | case3 s unclosed ih =>
    cases found
    obtain ⟨position, ts, lexed⟩ := lexed
    have closed : ((single? s).map (· + 1)).isSome = true :=
      Lexed.length?_of_mark (q := .single) lexed
    rw [unclosed] at closed
    cases closed
  | case4 s other =>
    cases found
    rw [List.cons_append, single?]
    intro more same
    cases s with
    | nil => exact apart (by rw [← List.nil_append rest, same]; rfl) rfl
    | cons c s => exact other s (by rw [(List.cons.inj same).1])
  | case5 c s other quote ih =>
    obtain ⟨m, closed, rfl⟩ := Option.map_eq_some_iff.mp found
    have later := ih closed (by simpa using lexed)
      (by rwa [getLast?_cons_of_ne_nil (nonempty closed)] at apart)
    rw [List.cons_append, single?, later]
    · rfl
    · exact fun _ same _ => quote same
    · exact quote

theorem Quoted.double?_append {s : List Char} {n : Nat} (found : double? s = some n)
    (rest : List Char) : double? (s ++ rest) = some n := by
  fun_induction double? s generalizing n with
  | case1 => cases found
  | case2 s =>
    cases found
    rfl
  | case3 => cases found
  | case4 => cases found
  | case5 c s line ih =>
    obtain ⟨m, closed, rfl⟩ := Option.map_eq_some_iff.mp found
    rw [List.cons_append, List.cons_append, double?, if_neg line, ih closed]
    rfl
  | case6 c s quote last backslash ih =>
    obtain ⟨m, closed, rfl⟩ := Option.map_eq_some_iff.mp found
    have plain : c ≠ '\\' := by
      intro same
      cases s with
      | nil => exact last same rfl
      | cons d s => exact backslash d s same rfl
    rw [List.cons_append, double?, ih closed]
    · rfl
    · exact quote
    · exact fun same _ => plain same
    · exact fun _ _ same _ => plain same

section

variable {p : Char → Bool} {c : Char}

theorem takeWhile_append_cons (stop : p c = false) (s rest : List Char) :
    (s ++ c :: rest).takeWhile p = s.takeWhile p := by
  induction s with
  | nil => exact List.takeWhile_cons_of_neg (by simp [stop])
  | cons d s ih => simp only [List.cons_append, List.takeWhile_cons, ih]

theorem dropWhile_append_cons (stop : p c = false) (s rest : List Char) :
    (s ++ c :: rest).dropWhile p = s.dropWhile p ++ c :: rest := by
  induction s with
  | nil => exact List.dropWhile_cons_of_neg (by simp [stop])
  | cons d s ih =>
    simp only [List.cons_append, List.dropWhile_cons, ih]
    split <;> rfl

end

theorem Quoted.length?_of_other {c : Char} (other : c ≠ '\'' ∧ c ≠ '"') (s : List Char) :
    length? (c :: s) = none := by
  unfold length?
  split
  · next same => exact absurd (List.cons.inj same).1 other.1
  · next same => exact absurd (List.cons.inj same).1 other.2
  · rfl

theorem operator?_cons_cons (c d : Char) (s : List Char) :
    operator? (c :: d :: s) = operator? [c, d] := by
  by_cases sign : c ∈ ['=', '!', '<', '>', '&', '|']
  · simp only [List.mem_cons, List.not_mem_nil, or_false] at sign
    rcases sign with rfl | rfl | rfl | rfl | rfl | rfl
    · by_cases equal : d = '=' <;> simp [operator?, equal]
    · by_cases equal : d = '=' <;> simp [operator?, equal]
    · by_cases equal : d = '=' <;> simp [operator?, equal]
    · by_cases equal : d = '=' <;> simp [operator?, equal]
    · by_cases ampersand : d = '&' <;> simp [operator?, ampersand]
    · by_cases bar : d = '|' <;> simp [operator?, bar]
  · simp only [List.mem_cons, List.not_mem_nil, or_false, not_or] at sign
    obtain ⟨equal, bang, less, greater, ampersand, bar⟩ := sign
    simp [operator?, equal, bang, less, greater, ampersand, bar]

theorem operator?_stop {c d : Char} (other : d ≠ '=' ∧ d ≠ '&' ∧ d ≠ '|') (s : List Char) :
    operator? (c :: d :: s) = operator? [c] := by
  unfold operator?
  grind

theorem punctuation?_cons (c : Char) (s : List Char) :
    punctuation? (c :: s) = punctuation? [c] := by
  unfold punctuation?
  grind

namespace Quote

variable (q : Quote)

structure Stops (c : Char) : Prop where
  digit : isDecimalDigit c = false
  name : isNameChar c = false
  part : isPartChar c = false
  other : c ≠ '.' ∧ c ≠ '=' ∧ c ≠ '&' ∧ c ≠ '|'

theorem stops : Stops q.mark := by
  cases q <;> constructor <;> decide

theorem numeralLength_append (s rest : List Char) :
    numeralLength (s ++ q.mark :: rest) = numeralLength s := by
  unfold numeralLength
  rw [takeWhile_append_cons q.stops.digit, dropWhile_append_cons q.stops.digit]
  dsimp only
  cases later : s.dropWhile isDecimalDigit with
  | nil => cases q <;> rfl
  | cons c s =>
    by_cases dot : c = '.'
    · subst dot
      simp only [List.cons_append, takeWhile_append_cons q.stops.digit]
    · rw [List.cons_append]
      split
      · next same => exact absurd (List.cons.inj same).1 dot
      · split
        · next same => exact absurd (List.cons.inj same).1 dot
        · rfl

theorem partsLength_append (inPart : Bool) (s rest : List Char) :
    partsLength inPart (s ++ q.mark :: rest) = partsLength inPart s := by
  have part := q.stops.part
  fun_induction partsLength inPart s with
  | case1 =>
    rw [List.nil_append, partsLength]
    · simp [part]
    · exact fun _ _ same => absurd same q.stops.other.1
  | case2 inPart c s own ih =>
    rw [List.cons_append, List.cons_append, partsLength, if_pos own, ih]
  | case3 inPart c s own =>
    rw [List.cons_append, List.cons_append, partsLength, if_neg own]
  | case4 inPart c s other own ih =>
    have dotless : c ≠ '.' := by
      rintro rfl
      exact absurd (Bool.and_eq_true_iff.mp own).2 (by decide)
    rw [List.cons_append, partsLength, if_pos own, ih]
    exact fun _ _ same _ => dotless same
  | case5 inPart c s other own =>
    by_cases dot : c = '.'
    · subst dot
      cases s with
      | nil => rw [List.cons_append, List.nil_append, partsLength, if_neg (by simp [part])]
      | cons d s => exact absurd rfl (other d s rfl)
    · rw [List.cons_append, partsLength, if_neg own]
      exact fun _ _ same _ => dot same

theorem length?_append {kind : TokenKind} {c : Char} (start : c ≠ '\'' ∧ c ≠ '"')
    (s rest : List Char) :
    kind.length? (c :: s ++ q.mark :: rest) = kind.length? (c :: s) := by
  cases kind with
  | quoted =>
    show Quoted.length? (c :: s ++ q.mark :: rest) = Quoted.length? (c :: s)
    rw [List.cons_append, Quoted.length?_of_other start, Quoted.length?_of_other start]
  | number =>
    show numeral? (c :: s ++ q.mark :: rest) = numeral? (c :: s)
    have whole := q.numeralLength_append (c :: s) rest
    by_cases sign : c = '-'
    · subst sign
      cases s with
      | nil => cases q <;> rfl
      | cons d s =>
        have later := q.numeralLength_append (d :: s) rest
        simp only [List.cons_append, numeral?] at later ⊢
        rw [later]
    · rw [List.cons_append] at whole ⊢
      rw [numeral?, numeral?, whole]
      · exact fun _ _ same _ => sign same
      · exact fun _ _ same _ => sign same
  | operator =>
    show operator? (c :: s ++ q.mark :: rest) = operator? (c :: s)
    cases s with
    | nil => exact operator?_stop q.stops.other.2 rest
    | cons d s =>
      rw [List.cons_append, List.cons_append, operator?_cons_cons, operator?_cons_cons c d s]
  | punctuation =>
    show punctuation? (c :: s ++ q.mark :: rest) = punctuation? (c :: s)
    rw [List.cons_append, punctuation?_cons, punctuation?_cons c s]
  | name =>
    show name? (c :: s ++ q.mark :: rest) = name? (c :: s)
    rw [List.cons_append, name?, name?, takeWhile_append_cons q.stops.name,
      dropWhile_append_cons q.stops.name, q.partsLength_append]

theorem exists_of_not_other {c : Char} (quoted : ¬(c ≠ '\'' ∧ c ≠ '"')) :
    ∃ p : Quote, c = p.mark := by
  by_cases one : c = '\''
  · exact ⟨single, one⟩
  · exact ⟨double, not_not.mp fun two => quoted ⟨one, two⟩⟩

/-- That no quote at the end of a text would go on with a quoted text. -/
def Apart (s : List Char) : Prop := q = single → s.getLast? ≠ some '\''

variable {q}

theorem Apart.of_append {w s : List Char} (apart : q.Apart (w ++ s)) : q.Apart s := by
  intro single last
  refine apart single ?_
  rw [List.getLast?_append, last]
  rfl

variable {kind : TokenKind} {position : Nat} {w s : List Char} {ts : List Token}

theorem length?_quoted_append {p : Quote}
    (found : Quoted.length? (p.mark :: (w ++ s)) = some (w.length + 1))
    (lexed : Lexed position s ts) (apart : q.Apart (p.mark :: (w ++ s))) (rest : List Char) :
    Quoted.length? (p.mark :: (w ++ s) ++ q.mark :: rest) = some (w.length + 1) := by
  cases p with
  | single =>
    obtain ⟨n, closed, same⟩ := Option.map_eq_some_iff.mp
      (show (Quoted.single? (w ++ s)).map (· + 1) = _ from found)
    obtain rfl := Nat.succ.inj same
    have later : Quoted.single? (w ++ s ++ q.mark :: rest) = some w.length := by
      refine Quoted.single?_append closed ⟨position, ts, by rwa [List.drop_left]⟩ ?_
      intro mark
      have own : q = single := by
        cases q with
        | single => rfl
        | double => exact absurd (Option.some.inj mark) (by decide)
      exact Apart.of_append (w := [_]) apart own
    exact congrArg (Option.map (· + 1)) later
  | double =>
    obtain ⟨n, closed, same⟩ := Option.map_eq_some_iff.mp
      (show (Quoted.double? (w ++ s)).map (· + 1) = _ from found)
    obtain rfl := Nat.succ.inj same
    exact congrArg (Option.map (· + 1)) (Quoted.double?_append closed (q.mark :: rest))

theorem lexeme?_append {c : Char} (found : lexeme? (c :: w ++ s) = some (kind, (c :: w).length))
    (lexed : Lexed position s ts) (apart : q.Apart (c :: w ++ s)) (rest : List Char) :
    lexeme? (c :: w ++ s ++ q.mark :: rest) = some (kind, (c :: w).length) := by
  by_cases start : c ≠ '\'' ∧ c ≠ '"'
  · rw [← found]
    exact lexeme?_congr fun kind => q.length?_append start (w ++ s) rest
  · obtain ⟨p, rfl⟩ := exists_of_not_other start
    rw [List.cons_append, p.lexeme?_mark] at found
    obtain ⟨n, own, same⟩ := Option.map_eq_some_iff.mp found
    cases same
    have later := length?_quoted_append own lexed apart rest
    rw [List.cons_append] at later
    rw [List.cons_append, List.cons_append, p.lexeme?_mark, later]
    rfl

end Quote

theorem Lexed.append {q : Quote} {position : Nat} {s rest : List Char} {ts others : List Token}
    (lexed : Lexed position s ts) (apart : q.Apart s)
    (more : Lexed (position + s.length) (q.mark :: rest) others) :
    Lexed position (s ++ q.mark :: rest) (ts ++ others) := by
  induction lexed with
  | nil => exact more
  | @blank position c s ts blank rest ih =>
    refine .blank blank (ih (Quote.Apart.of_append (w := [c]) apart) ?_)
    rwa [List.length_cons, Nat.add_comm s.length, ← Nat.add_assoc] at more
  | @token position kind c w s ts plain found lexed ih =>
    have later := Quote.lexeme?_append found lexed apart rest
    rw [List.append_assoc] at later ⊢
    refine .token plain later (ih apart.of_append ?_)
    rwa [List.length_append, ← Nat.add_assoc] at more

theorem Quote.mark_not_mem (q : Quote) {kind : TokenKind} {w : List Char} (word : kind.IsWord w)
    (other : kind ≠ .quoted) : q.mark ∉ w := by
  cases kind with
  | quoted => exact absurd rfl other
  | number => exact word.not_mem (by cases q <;> decide)
  | operator =>
    have none : ∀ text ∈ signs, q.mark ∉ text.toList := by cases q <;> decide
    have own := none _ word
    rwa [String.toList_ofList] at own
  | punctuation =>
    have none : ∀ text ∈ marks, q.mark ∉ text.toList := by cases q <;> decide
    have own := none _ word
    rwa [String.toList_ofList] at own
  | name =>
    intro member
    rcases word.isPartChar_or member with dot | part
    · exact q.stops.other.1 dot
    · rw [q.stops.part] at part
      cases part

theorem Quoted.length?_eq_none {c : Char} {w : List Char}
    (unquoted : ∀ q : Quote, q.mark ∉ c :: w) (s : List Char) : length? (c :: s) = none := by
  apply length?_of_other
  constructor
  · rintro rfl
    exact unquoted .single List.mem_cons_self
  · rintro rfl
    exact unquoted .double List.mem_cons_self

theorem cut_append_of_unquoted {w : List Char} (unquoted : ∀ q : Quote, q.mark ∉ w)
    (s : List Char) : cut Quoted.length? (w ++ s) = w.map .plain ++ cut Quoted.length? s := by
  apply cut_append_of_none
  rintro before (- | ⟨c, rest⟩) rfl nonempty
  · exact absurd rfl nonempty
  · apply Quoted.length?_eq_none
    intro q member
    exact unquoted q (List.mem_append_right before member)

theorem Lexed.cut_append {q : Quote} {position : Nat} {s : List Char} {ts : List Token}
    (lexed : Lexed position s ts) (apart : q.Apart s) (rest : List Char) :
    cut Quoted.length? (s ++ q.mark :: rest) =
      cut Quoted.length? s ++ cut Quoted.length? (q.mark :: rest) := by
  induction lexed with
  | nil => rfl
  | @blank position c s ts blank lexed ih =>
    have unquoted (q : Quote) : q.mark ∉ [c] := by
      intro member
      rw [← List.mem_singleton.mp member] at blank
      exact absurd blank (by cases q <;> decide)
    have own (s : List Char) := cut_append_of_unquoted unquoted s
    rw [← List.singleton_append, List.append_assoc, own, own,
      ih (Quote.Apart.of_append (w := [c]) apart), List.append_assoc]
  | @token position kind c w s ts plain found lexed ih =>
    have later := Quote.lexeme?_append found lexed apart rest
    rw [List.append_assoc] at later ⊢
    by_cases quoted : kind = .quoted
    · subst quoted
      have own {s : List Char} (found : lexeme? (c :: w ++ s) = some (.quoted, (c :: w).length)) :
          cut Quoted.length? (c :: w ++ s) = .found (c :: w) :: cut Quoted.length? s :=
        cut_append_of_found (List.cons_ne_nil c w) (length?_of_lexeme? found)
      rw [own later, own found, ih apart.of_append]
      rfl
    · have word : kind.IsWord (c :: w) := by
        have own := isWord_of_length? (length?_of_lexeme? found)
        rwa [List.take_left] at own
      have own (s : List Char) := cut_append_of_unquoted (fun q => q.mark_not_mem word quoted) s
      rw [own, own, ih apart.of_append, List.append_assoc]

/-! ### A literal and what follows it -/

namespace Quote

variable {q : Quote}

theorem visible (q : Quote) : isBlank q.mark = false := by
  cases q <;> decide

theorem lexed_literal {position : Nat} {s rest : List Char} {ts : List Token}
    (ends : q = single → ∀ c ∈ rest.head?, c ≠ '\'')
    (lexed : Lexed (position + (q.literal (q.escape s)).length) rest ts) :
    Lexed position (q.literal (q.escape s) ++ rest)
      (⟨.quoted, String.ofList (q.literal (q.escape s)), position⟩ :: ts) := by
  have found : Quoted.length? (q.mark :: (q.escape s ++ [q.mark] ++ rest)) =
      some (q.mark :: (q.escape s ++ [q.mark])).length := q.length?_literal s ends
  refine .token (w := q.escape s ++ [q.mark]) q.visible ?_ lexed
  rw [List.cons_append, q.lexeme?_mark, found]
  rfl

theorem cut_literal {s rest : List Char} (ends : q = single → ∀ c ∈ rest.head?, c ≠ '\'') :
    cut Quoted.length? (q.literal (q.escape s) ++ rest) =
      .found (q.literal (q.escape s)) :: cut Quoted.length? rest :=
  cut_append_of_found (List.cons_ne_nil _ _) (q.length?_literal s ends)

/-! ### Texts without placeholders -/

theorem mark_not_mem_opening (q : Quote) : q.mark ∉ Placeholder.opening := by
  cases q <;> decide

theorem isFree_append_mark {s t : List Char} (before : Placeholder.IsFree s)
    (after : Placeholder.IsFree t) : Placeholder.IsFree (s ++ q.mark :: t) := by
  intro inside
  rcases isInfix_of_append_cons (by decide) q.mark_not_mem_opening inside with left | right
  · exact before left
  · exact after right

theorem isFree_escape {s : List Char} (free : Placeholder.IsFree s) :
    Placeholder.IsFree (q.escape s) := by
  intro inside
  refine free ?_
  cases q with
  | single =>
    refine isInfix_of_flatMap (by decide) (fun c => ?_) inside
    by_cases quote : c = '\''
    · subst quote
      exact .inr (by simp [Placeholder.opening])
    · exact .inl (if_neg quote)
  | double =>
    refine isInfix_of_flatMap (by decide) (fun c => ?_) inside
    by_cases escaped : c = '\\' ∨ c = '"'
    · refine .inr ?_
      rcases escaped with rfl | rfl <;> simp [Placeholder.opening]
    · exact .inl (if_neg escaped)

theorem isFree_append_literal {s before after : List Char} (left : Placeholder.IsFree before)
    (free : Placeholder.IsFree s) (right : Placeholder.IsFree after) :
    Placeholder.IsFree (before ++ (q.literal (q.escape s) ++ after)) := by
  have later : Placeholder.IsFree (q.escape s ++ q.mark :: after) :=
    isFree_append_mark (isFree_escape free) right
  rw [literal, List.cons_append, List.append_assoc, List.singleton_append]
  exact isFree_append_mark left later

end Quote
end Rehearsal.Expression
