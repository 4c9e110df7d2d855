import Rehearsal.Proofs.Expression.Exact
import Rehearsal.Proofs.Expression.Literal
import Rehearsal.Proofs.Text.Overlap

/-! A text is quoted by replacing quotes in it: each single quote by two, or first each backslash
and then each double quote by itself with a backslash before it. Both replacements are escapes
(`Quote.replaced_eq_escape`), so what they write is one token and an expression that means the text:
`quoted_texts_are_read_back`. What stands between the quotes of a token is said by `Quote.Encloses`;
between single quotes it is always the escape of something (`Quoted.quoteSingle_unquoteSingle_iff`).
-/

namespace Rehearsal.Expression

open Rehearsal.Text

namespace Quoted

/-! ### What stands between quotes -/

/-- Text in which each single quote has another one after it. -/
inductive IsPaired : List Char → Prop
  | nil : IsPaired []
  | plain {c : Char} {s : List Char} (other : c ≠ '\'') (rest : IsPaired s) : IsPaired (c :: s)
  | pair {s : List Char} (rest : IsPaired s) : IsPaired ('\'' :: '\'' :: s)

/-- Text in which each double quote has a backslash before it, and each backslash has a character
of the same line after it. -/
inductive IsEscaped : List Char → Prop
  | nil : IsEscaped []
  | plain {c : Char} {s : List Char} (quote : c ≠ '"') (backslash : c ≠ '\\')
      (rest : IsEscaped s) : IsEscaped (c :: s)
  | escape {c : Char} {s : List Char} (line : c ≠ '\n') (rest : IsEscaped s) :
      IsEscaped ('\\' :: c :: s)

theorem exists_of_single? {s : List Char} {n : Nat} (found : single? s = some n) :
    ∃ m, IsPaired m ∧ s.take n = m ++ ['\''] := by
  fun_induction single? s generalizing n with
  | case1 => cases found
  | case2 s m closed ih =>
    cases found
    obtain ⟨inside, own, same⟩ := ih closed
    refine ⟨'\'' :: '\'' :: inside, .pair own, ?_⟩
    rw [List.take_succ_cons, List.take_succ_cons, same]
    rfl
  | case3 s unclosed ih =>
    cases found
    exact ⟨[], .nil, rfl⟩
  | case4 s other =>
    cases found
    exact ⟨[], .nil, rfl⟩
  | case5 c s other quote ih =>
    obtain ⟨m, closed, rfl⟩ := Option.map_eq_some_iff.mp found
    obtain ⟨inside, own, same⟩ := ih closed
    exact ⟨c :: inside, .plain quote own, by rw [List.take_succ_cons, same]; rfl⟩

theorem exists_of_double? {s : List Char} {n : Nat} (found : double? s = some n) :
    ∃ m, IsEscaped m ∧ s.take n = m ++ ['"'] := by
  fun_induction double? s generalizing n with
  | case1 => cases found
  | case2 s =>
    cases found
    exact ⟨[], .nil, rfl⟩
  | case3 => cases found
  | case4 => cases found
  | case5 c s line ih =>
    obtain ⟨m, closed, rfl⟩ := Option.map_eq_some_iff.mp found
    obtain ⟨inside, own, same⟩ := ih closed
    refine ⟨'\\' :: c :: inside, .escape line own, ?_⟩
    rw [List.take_succ_cons, List.take_succ_cons, same]
    rfl
  | case6 c s quote last backslash ih =>
    obtain ⟨m, closed, rfl⟩ := Option.map_eq_some_iff.mp found
    obtain ⟨inside, own, same⟩ := ih closed
    have plain : c ≠ '\\' := by
      intro first
      cases s with
      | nil => exact last first rfl
      | cons d s => exact backslash d s first rfl
    exact ⟨c :: inside, .plain quote plain own, by rw [List.take_succ_cons, same]; rfl⟩

theorem isSome_single?_of_isPaired {m : List Char} (own : IsPaired m) (rest : List Char) :
    (single? (m ++ '\'' :: rest)).isSome = true := by
  have closing (s : List Char) : (single? ('\'' :: s)).isSome = true := by
    unfold single?
    split
    · next same => cases same
    · split <;> rfl
    · rfl
    · next c s other quote same => exact absurd (List.cons.inj same).1.symm quote
  induction own with
  | nil => exact closing rest
  | @plain c s other _ ih =>
    rw [List.cons_append, single?]
    · rwa [Option.isSome_map]
    · exact fun _ same _ => other same
    · exact other
  | pair => exact closing _

theorem isSome_double?_of_isEscaped {m : List Char} (own : IsEscaped m) (rest : List Char) :
    (double? (m ++ '"' :: rest)).isSome = true := by
  induction own with
  | nil => rfl
  | @plain c s quote backslash _ ih =>
    rw [List.cons_append, double?]
    · rwa [Option.isSome_map]
    · exact quote
    · exact fun same _ => backslash same
    · exact fun _ _ same _ => backslash same
  | escape line _ ih =>
    rw [List.cons_append, List.cons_append, double?, if_neg line]
    rwa [Option.isSome_map]

end Quoted

def Quote.Encloses : Quote → List Char → Prop
  | single => Quoted.IsPaired
  | double => Quoted.IsEscaped

namespace Quoted

theorem exists_literal_of_length? {s : List Char} {n : Nat} (found : length? s = some n) :
    ∃ (q : Quote) (m : List Char), q.Encloses m ∧ s.take n = q.literal m := by
  unfold length? at found
  split at found
  · obtain ⟨m, closed, rfl⟩ := Option.map_eq_some_iff.mp found
    obtain ⟨inside, own, same⟩ := exists_of_single? closed
    exact ⟨.single, inside, own, by rw [List.take_succ_cons, same]; rfl⟩
  · obtain ⟨m, closed, rfl⟩ := Option.map_eq_some_iff.mp found
    obtain ⟨inside, own, same⟩ := exists_of_double? closed
    exact ⟨.double, inside, own, by rw [List.take_succ_cons, same]; rfl⟩
  · cases found

theorem isSome_length?_of_encloses {q : Quote} {m : List Char} (own : q.Encloses m)
    (rest : List Char) : (length? (q.literal m ++ rest)).isSome = true := by
  have text : q.literal m ++ rest = q.mark :: (m ++ q.mark :: rest) := by simp [Quote.literal]
  rw [text]
  cases q with
  | single =>
    show ((single? (m ++ '\'' :: rest)).map (· + 1)).isSome = true
    rw [Option.isSome_map]
    exact isSome_single?_of_isPaired own rest
  | double =>
    show ((double? (m ++ '"' :: rest)).map (· + 1)).isSome = true
    rw [Option.isSome_map]
    exact isSome_double?_of_isEscaped own rest

end Quoted

/-! ### Quoting by replacements -/

namespace Quoted

theorem isPaired_quoteSingle (s : List Char) : IsPaired (quoteSingle s) := by
  induction s with
  | nil => exact .nil
  | cons c s ih =>
    by_cases quote : c = '\''
    · subst quote
      exact .pair ih
    · have own : quoteSingle (c :: s) = c :: quoteSingle s := by simp [quoteSingle, quote]
      rw [own]
      exact .plain quote ih

theorem quoteSingle_unquoteSingle_iff {m : List Char} :
    quoteSingle (unquoteSingle m) = m ↔ IsPaired m := by
  constructor
  · intro same
    rw [← same]
    exact isPaired_quoteSingle _
  · intro own
    induction own with
    | nil => rfl
    | @plain c s other _ ih =>
      have half : unquoteSingle (c :: s) = c :: unquoteSingle s := by
        rw [unquoteSingle]
        exact fun _ same _ => other same
      rw [half]
      simpa [quoteSingle, other] using ih
    | pair _ ih => exact congrArg (fun s => '\'' :: '\'' :: s) ih

end Quoted

namespace Quote

/-- Replaces the characters of a text that would otherwise end it or take part in an escape. -/
def replaced : Quote → List Char → List Char
  | single, s => replaceAll ['\''] ['\'', '\''] s
  | double, s => replaceAll ['"'] ['\\', '"'] (replaceAll ['\\'] ['\\', '\\'] s)

theorem replaced_eq_escape (q : Quote) (s : List Char) : q.replaced s = q.escape s := by
  cases q with
  | single =>
    show replaceAll ['\''] ['\'', '\''] s = Quoted.quoteSingle s
    exact replaceAll_singleton '\'' ['\'', '\''] s
  | double =>
    show replaceAll ['"'] ['\\', '"'] (replaceAll ['\\'] ['\\', '\\'] s) = Quoted.quoteDouble s
    rw [replaceAll_singleton, replaceAll_singleton, List.flatMap_assoc, Quoted.quoteDouble]
    congr 1
    funext c
    by_cases backslash : c = '\\'
    · subst backslash
      rfl
    · by_cases quote : c = '"'
      · subst quote
        rfl
      · simp [backslash, quote]

def written (q : Quote) (s : String) : String := String.ofList (q.literal (q.replaced s.toList))

theorem tokenize_written (q : Quote) (s : String) :
    tokenize (q.written s) = .ok [⟨.quoted, q.written s, 0⟩] := by
  have lexed : Lexed 0 (q.literal (q.escape s.toList) ++ [])
      [⟨.quoted, String.ofList (q.literal (q.escape s.toList)), 0⟩] :=
    lexed_literal (fun _ => nofun) (.nil _)
  rw [List.append_nil] at lexed
  rw [tokenize_iff, written, String.toList_ofList, replaced_eq_escape]
  exact lexed

theorem unquote_written (q : Quote) (s : String) :
    Quoted.unquote (q.written s).toList = s.toList := by
  rw [written, String.toList_ofList, replaced_eq_escape, unquote_literal]

end Quote

/-- **Quoted texts are read back.** A text in quotes of either kind is one token, whatever the text
is, and an expression that means the text. -/
theorem quoted_texts_are_read_back (q : Quote) (s : String) :
    tokenize (q.written s) = .ok [⟨.quoted, q.written s, 0⟩] ∧
      parse (q.written s) = .ok (.literal (.str s)) := by
  have tokens := q.tokenize_written s
  refine ⟨tokens, ?_⟩
  have parsed := parse_of_primary (d := .quoted ⟨.quoted, q.written s, 0⟩ rfl) tokens
  rw [Derivation.meaning, q.unquote_written, String.ofList_toList] at parsed
  exact parsed

example : Quote.single.written "it's'" = "'it''s'''" := by decide +kernel

example : Quote.double.written "\\\"\n" = "\"\\\\\\\"\n\"" := by decide +kernel

end Rehearsal.Expression
