import Rehearsal.Proofs.Expression.Literal

/-! Text without quotes around a text changes nothing about its quoted texts, and text without
closing braces after it nothing about its placeholders. A placeholder ends at the first closing
brace (`Placeholder.inside?_eq_some_iff`), so one around a text without closing braces has just that
text inside (`Placeholder.unwrap_of_unclosed`). -/

namespace Rehearsal.Expression

open Rehearsal.Text

/-! ### Quoted texts -/

namespace Quoted

theorem single?_eq_none {w : List Char} (unquoted : '\'' ∉ w) : single? w = none := by
  induction w with
  | nil => rfl
  | cons c w ih =>
    obtain ⟨first, others⟩ := not_or.mp (List.mem_cons.not.mp unquoted)
    rw [single?, ih others]
    · rfl
    · exact fun _ same _ => first same.symm
    · exact fun same => first same.symm

theorem single?_append_unquoted {w : List Char} (unquoted : '\'' ∉ w) (s : List Char) :
    single? (s ++ w) = single? s := by
  fun_induction single? s with
  | case1 => exact single?_eq_none unquoted
  | case2 s n closed ih =>
    rw [List.cons_append, List.cons_append, single?, ih, closed]
  | case3 s unclosed ih =>
    rw [List.cons_append, List.cons_append, single?, ih, unclosed]
  | case4 s other =>
    rw [List.cons_append, single?]
    intro more same
    cases s with
    | nil =>
      rw [List.nil_append] at same
      exact unquoted (same ▸ List.mem_cons_self)
    | cons c s => exact other s (by rw [(List.cons.inj same).1])
  | case5 c s other quote ih =>
    rw [List.cons_append, single?, ih]
    · exact fun _ same _ => quote same
    · exact quote

theorem double?_eq_none {w : List Char} (unquoted : '"' ∉ w) : double? w = none := by
  fun_induction double? w with
  | case1 => rfl
  | case2 => exact absurd List.mem_cons_self unquoted
  | case3 => rfl
  | case4 => rfl
  | case5 c w other ih =>
    rw [ih fun member => unquoted (.tail _ (.tail _ member))]
    rfl
  | case6 c w quote single backslash ih =>
    rw [ih fun member => unquoted (.tail _ member)]
    rfl

theorem double?_append_unquoted {w : List Char} (unquoted : '"' ∉ w) (s : List Char) :
    double? (s ++ w) = double? s := by
  fun_induction double? s with
  | case1 => exact double?_eq_none unquoted
  | case2 s => rw [List.cons_append, double?]
  | case3 =>
    exact double?_eq_none fun member =>
      unquoted ((List.mem_cons.mp member).resolve_left (by decide))
  | case4 s => rfl
  | case5 c s other ih => rw [List.cons_append, List.cons_append, double?, if_neg other, ih]
  | case6 c s quote single backslash ih =>
    have escape (d : Char) (more : List Char) (own : c = '\\') : s ++ w ≠ d :: more := by
      cases s with
      | nil => exact absurd rfl (single own)
      | cons e s => exact absurd rfl (backslash e s own)
    rw [List.cons_append, double?, ih]
    · exact quote
    · exact fun same empty => single same (List.append_eq_nil_iff.mp empty).1
    · exact fun d more same => escape d more same

theorem length?_append_unquoted {w : List Char} (unquoted : ∀ q : Quote, q.mark ∉ w)
    {s : List Char} (nonempty : s ≠ []) : length? (s ++ w) = length? s := by
  obtain ⟨c, s, rfl⟩ := List.exists_cons_of_ne_nil nonempty
  by_cases other : c ≠ '\'' ∧ c ≠ '"'
  · rw [List.cons_append, length?_of_other other, length?_of_other other]
  · obtain ⟨q, rfl⟩ := Quote.exists_of_not_other other
    cases q with
    | single =>
      exact congrArg (Option.map (· + 1)) (single?_append_unquoted (unquoted .single) s)
    | double =>
      exact congrArg (Option.map (· + 1)) (double?_append_unquoted (unquoted .double) s)

theorem cut_append_unquoted {w : List Char} (unquoted : ∀ q : Quote, q.mark ∉ w) (s : List Char) :
    cut length? (s ++ w) = cut length? s ++ w.map .plain := by
  refine cut_append_plain (fun rest nonempty => length?_append_unquoted unquoted nonempty)
    (fun rest n found => (length?_bounds found).2) ?_ s
  rintro before (- | ⟨c, rest⟩) rfl nonempty
  · exact absurd rfl nonempty
  · exact length?_eq_none (fun q member => unquoted q (List.mem_append_right _ member)) rest

end Quoted

/-! ### Placeholders -/

namespace Placeholder

theorem length?_bounds {s : List Char} {n : Nat} (found : length? s = some n) :
    0 < n ∧ n ≤ s.length := by
  obtain ⟨body, inside, rfl⟩ := Option.map_eq_some_iff.mp found
  obtain ⟨-, -, rest, rfl⟩ := inside?_eq_some_iff.mp inside
  simp only [List.length_append, opening, closing, List.length_cons, List.length_nil]
  omega

theorem inside?_append_unclosed {w : List Char} (unclosed : '\x7d' ∉ w) (s : List Char) :
    inside? (s ++ w) = inside? s := by
  refine Option.ext fun body => ?_
  rw [inside?_eq_some_iff, inside?_eq_some_iff]
  refine and_congr_right fun _ => and_congr_right fun _ => ⟨?_, ?_⟩
  · rintro ⟨rest, same⟩
    have whole : s ++ w = (opening ++ body ++ ['\x7d'] ++ ['\x7d']) ++ rest := by
      simp [same, closing]
    rcases List.append_eq_append_iff.mp whole with ⟨gap, own, later⟩ | ⟨gap, rfl, -⟩
    · rcases List.eq_nil_or_concat gap with rfl | ⟨front, c, rfl⟩
      · exact ⟨[], by rw [← List.append_nil s, ← own]; simp [closing]⟩
      · rw [List.concat_eq_append, ← List.append_assoc] at own
        obtain rfl : c = '\x7d' := by simpa using congrArg List.getLast? own.symm
        exact absurd (by simp [later]) unclosed
    · exact ⟨gap, by simp [closing]⟩
  · rintro ⟨rest, rfl⟩
    exact ⟨rest ++ w, by simp⟩

theorem length?_append_unclosed {w : List Char} (unclosed : '\x7d' ∉ w) (s : List Char) :
    length? (s ++ w) = length? s := by
  rw [length?, length?, inside?_append_unclosed unclosed]

theorem length?_eq_none_of_unclosed {w : List Char} (unclosed : '\x7d' ∉ w) : length? w = none :=
  length?_append_unclosed unclosed []

theorem cut_append_unclosed {w : List Char} (unclosed : '\x7d' ∉ w) (s : List Char) :
    cut length? (s ++ w) = cut length? s ++ w.map .plain := by
  refine cut_append_plain (fun rest _ => length?_append_unclosed unclosed rest)
    (fun rest n found => (length?_bounds found).2) ?_ s
  rintro before rest rfl -
  exact length?_eq_none_of_unclosed fun member => unclosed (List.mem_append_right _ member)

theorem cut_of_unclosed {w : List Char} (unclosed : '\x7d' ∉ w) :
    cut length? w = w.map .plain := cut_append_unclosed unclosed []

theorem unwrap_eq_self {w : List Char} (unclosed : '\x7d' ∉ w) : unwrap w = w := by
  rw [unwrap, replaceFound, cut_of_unclosed unclosed]
  simp [List.flatMap_map]

theorem unwrap_of_unclosed {body : List Char} (nonempty : body ≠ []) (unclosed : '\x7d' ∉ body) :
    unwrap (opening ++ (body ++ closing)) = trim body := by
  have found : length? (opening ++ (body ++ closing) ++ []) =
      some (opening ++ (body ++ closing)).length := by
    rw [length?, inside?_eq_some_iff.mpr ⟨nonempty, unclosed, [], by simp⟩, Option.map_some]
    simp only [List.length_append, opening, closing, List.length_cons, List.length_nil]
    congr 1
    omega
  have pieces : cut length? (opening ++ (body ++ closing) ++ []) =
      [.found (opening ++ (body ++ closing))] :=
    cut_append_of_found (List.cons_ne_nil _ _) found
  have inside : (opening ++ (body ++ closing)).drop 3 = body ++ ['\x7d'] ++ ['\x7d'] := by
    rw [List.append_assoc]
    rfl
  rw [List.append_nil] at pieces
  rw [unwrap, pieces]
  show expression _ ++ [] = _
  rw [List.append_nil, expression, inside, List.dropLast_concat, List.dropLast_concat]

theorem exists_unwrap_of_single_brace {a b : List Char} (unclosed : '\x7d' ∉ a)
    (single : b.head? ≠ some '\x7d') :
    ∃ rest, unwrap (opening ++ (a ++ '\x7d' :: b)) = '$' :: rest := by
  have none : length? (opening ++ (a ++ '\x7d' :: b)) = none := by
    refine Option.map_eq_none_iff.mpr (Option.eq_none_iff_forall_ne_some.mpr fun body found => ?_)
    obtain ⟨-, own, rest, same⟩ := inside?_eq_some_iff.mp found
    have text : a ++ '\x7d' :: b = body ++ '\x7d' :: '\x7d' :: rest := List.append_cancel_left same
    have cutOff (w s : List Char) (absent : '\x7d' ∉ w) :
        (w ++ '\x7d' :: s).dropWhile (· ≠ '\x7d') = '\x7d' :: s :=
      List.dropWhile_append_of_pos fun c member =>
        decide_eq_true fun equal => absent (equal ▸ member)
    have later := congrArg (List.dropWhile (· ≠ '\x7d')) text
    rw [cutOff a b unclosed, cutOff body _ own] at later
    exact single (by rw [(List.cons.inj later).2]; rfl)
  have pieces : cut length? (opening ++ (a ++ '\x7d' :: b)) =
      .plain '$' :: cut length? (['\x7b', '\x7b'] ++ (a ++ '\x7d' :: b)) := by
    have shape : opening ++ (a ++ '\x7d' :: b) =
        '$' :: (['\x7b', '\x7b'] ++ (a ++ '\x7d' :: b)) := rfl
    rw [shape] at none ⊢
    rw [cut, cutFrom, none, cut]
  rw [unwrap, pieces]
  exact ⟨_, rfl⟩

end Placeholder
end Rehearsal.Expression
