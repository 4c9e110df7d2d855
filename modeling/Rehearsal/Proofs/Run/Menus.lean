import Rehearsal.Proofs.Play.Menu
import Rehearsal.Proofs.Run.Memory

/-! Some expressions have a menu of values. Whatever a run has done, such an expression keeps a
value of its menu, or resolving it has ended at an answer that cannot be read:
`menus_give_listed_values`. -/

namespace Rehearsal

open Play Menu

/-! ### Expressions with a menu -/

theorem Source.mem_menus {expression : String} {options : List String}
    (own : Source.of expression = .menu options) : ∃ start, (start, options) ∈ Source.menus := by
  unfold Source.of at own
  split at own
  · next source found =>
    subst own
    simp only [Source.ofStart?, Option.or_eq_some_iff, Option.map_eq_some_iff] at found
    obtain ⟨⟨start, listed⟩, looked, same⟩ :
        ∃ entry, Source.menus.find? (·.1 == expression) = some entry ∧
          Source.menu entry.2 = .menu options := by grind
    cases same
    exact ⟨start, List.mem_of_find?_eq_some looked⟩
  · split at own
    · cases own
    · split at own <;> cases own

theorem Source.nonempty_of_menu {expression : String} {options : List String}
    (own : Source.of expression = .menu options) : options ≠ [] := by
  obtain ⟨start, member⟩ := mem_menus own
  have nonempty : ∀ entry ∈ Source.menus, entry.2 ≠ [] := by decide
  exact nonempty _ member

/-- That a session has kept only values of the menu for the expressions that have one. -/
def Session.Listed (s : Session) : Prop :=
  ∀ expression options value, Source.of expression = .menu options →
    s.kept? expression = some value → value ∈ options

variable {workflow : Mapping} {expression : String} {options : List String} {s t : Session}

theorem Session.Listed.congr (listed : s.Listed)
    (same : t.context.resolved = s.context.resolved) : t.Listed := by
  intro expression options value own kept
  rw [Session.kept?, same] at kept
  exact listed expression options value own kept

/-- Finding a value in a menu: one that is named, or a fault at an answer that cannot be read. -/
theorem exists_perform_found_of_menu (workflow : Mapping)
    (own : Source.of expression = .menu options) (s : Session) :
    ∃ n, (∀ i < n, Refused options (typed s.answers i)) ∧
      ∃ result t, Ending options (typed s.answers n) result ∧
        (found workflow expression).perform s = (result, t) := by
  obtain ⟨n, before, result, ending, performed⟩ := perform_choose (Source.nonempty_of_menu own)
    ("Select value for '" ++ expression ++ "':") s
  rw [found, own]
  change ∃ n, _ ∧ ∃ result t, _ ∧ (choose _ options >>= Resolve.announced expression).perform s = _
  refine ⟨n, before, result, ?_⟩
  cases ending with
  | @chosen option legible names =>
    rw [perform_bind_ok performed]
    exact (perform_announced expression option _).imp fun u told => ⟨.chosen legible names, told⟩
  | unreadable illegible =>
    rw [perform_bind, performed]
    exact ⟨_, .unreadable illegible, rfl⟩

theorem Session.Listed.resolve {expression : String} {result : Except Fault String} {t : Session}
    (listed : s.Listed)
    (performed : (Rehearsal.resolve workflow expression).perform s = (result, t)) : t.Listed := by
  have during {r : Except Fault String} {u : Session}
      (given : (found workflow expression).perform s = (r, u)) : u.Listed := by
    rcases cases_of_found given with ⟨inner, first, v, own, resolved, same⟩ | ⟨-, same⟩
    · have shorter := Source.length_lt_of_json own
      exact (listed.resolve resolved).congr same
    · exact listed.congr same
  cases resolution_of_perform performed with
  | kept kept => exact listed
  | failed fresh failed => exact during failed
  | fresh fresh given =>
    intro other options value own kept
    rw [Session.kept?_remember] at kept
    split at kept
    · next same =>
      subst same
      cases kept
      obtain ⟨n, -, result, u, ending, found⟩ := exists_perform_found_of_menu workflow own s
      cases given.symm.trans found
      cases ending with
      | chosen legible names => exact names.mem
    · exact during given other options value own kept
termination_by expression.length
decreasing_by simpa using shorter

theorem Act.Of.listed {Kind : Deed → Prop} {Allowed : String → Prop} {a : Act}
    (own : a.Of Kind Allowed) (listed : s.Listed) : (a.after s).Listed := by
  cases a with
  | deed d => exact listed.congr (own.2.after_resolved s)
  | resolve workflow expression => exact listed.resolve rfl

theorem Act.all_listed {Kind : Deed → Prop} {Allowed : String → Prop} {acts : List Act}
    (own : ∀ a ∈ acts, a.Of Kind Allowed) (listed : s.Listed) : (all acts s).Listed := by
  induction acts generalizing s with
  | nil => exact listed
  | cons a acts ih =>
    obtain ⟨first, others⟩ := List.forall_mem_cons.mp own
    exact ih others (first.listed listed)

theorem Run.Operation.all_listed (operations : List Operation) (listed : s.Listed) :
    (all operations s).Listed := by
  obtain ⟨acts, made⟩ := exists_acts operations s
  rw [made.all]
  exact Act.all_listed made.own listed

/-- Resolving an expression with a menu gives a listed value, which is kept, unless it has kept none
and the first answer that is not refused cannot be read. -/
theorem resolve_of_menu (workflow : Mapping) (listed : s.Listed)
    (own : Source.of expression = .menu options) :
    (∃ value t, (resolve workflow expression).perform s = (.ok value, t) ∧ value ∈ options ∧
        t.kept? expression = some value) ∨
      ∃ n t, s.kept? expression = none ∧ (∀ i < n, Refused options (typed s.answers i)) ∧
        ¬Legible (typed s.answers n) ∧
        (resolve workflow expression).perform s = (.error .numeral, t) := by
  cases kept : s.kept? expression with
  | some value =>
    exact .inl ⟨value, s, perform_resolve_of_kept kept, listed _ _ _ own kept, kept⟩
  | none =>
    obtain ⟨n, before, result, t, ending, given⟩ := exists_perform_found_of_menu workflow own s
    rw [perform_resolve_of_fresh kept]
    cases ending with
    | chosen legible names =>
      rw [perform_bind_ok given]
      exact .inl ⟨_, _, rfl, names.mem, by simp⟩
    | unreadable illegible =>
      rw [perform_bind, given]
      exact .inr ⟨n, t, rfl, before, illegible, rfl⟩

/-- **Menus.** A menu that is not empty asks again after each answer that is read and names no
option, and the next answer gives the option that it names, unless it cannot be read. So after any
operations of a run all values that are kept for expressions with a menu are listed there, and
resolving one gives such a value, which is then kept, unless the answer cannot be read. -/
theorem menus_give_listed_values (operations : List Run.Operation) {start : Session}
    (listed : start.Listed) :
    (∀ options : List String, options ≠ [] → ∀ text (s : Session),
      ∃ n, (∀ i < n, Refused options (typed s.answers i)) ∧
        ∃ result, Ending options (typed s.answers n) result ∧
          (∀ option, result = .ok option → option ∈ options) ∧
          (choose text options).perform s = (result,
            after options n { s with trace := (lines text options).reverse ++ s.trace })) ∧
    let s := Run.Operation.all operations start
    s.Listed ∧ ∀ workflow expression options, Source.of expression = .menu options →
      (∃ value t, (resolve workflow expression).perform s = (.ok value, t) ∧ value ∈ options ∧
          t.kept? expression = some value) ∨
        ∃ n t, s.kept? expression = none ∧ (∀ i < n, Refused options (typed s.answers i)) ∧
          ¬Legible (typed s.answers n) ∧
          (resolve workflow expression).perform s = (.error .numeral, t) := by
  have still : (Run.Operation.all operations start).Listed :=
    Run.Operation.all_listed operations listed
  refine ⟨fun options nonempty text s => ?_, still, fun workflow expression options own =>
    resolve_of_menu workflow still own⟩
  obtain ⟨n, before, result, ending, performed⟩ := perform_choose nonempty text s
  refine ⟨n, before, result, ending, ?_, performed⟩
  rintro option rfl
  cases ending with
  | chosen legible names => exact names.mem

/-- An answer that names nothing, and then the number of an option. -/
theorem menus_give_listed_values_retry :
    let start : Session := { answers := { texts := ["main", " 2 "] } }
    let s := Run.Operation.all [.resolve [] "github.ref_type"] start
    start.Listed ∧ s.kept? "github.ref_type" = some "tag" ∧ "tag" ∈ ["branch", "tag"] ∧
      ∃ n, (∀ i < n, Refused ["branch", "tag"] (typed start.answers i)) ∧
        ∃ result, Ending ["branch", "tag"] (typed start.answers n) result ∧
          ((choose "Pick" ["branch", "tag"]).perform start).1 = result := by
  intro start s
  have listed : start.Listed := fun _ _ _ _ kept => nomatch kept
  have kept : s.kept? "github.ref_type" = some "tag" := by decide +kernel
  have own : Source.of "github.ref_type" = .menu ["branch", "tag"] := by decide +kernel
  obtain ⟨asks, still, -⟩ :=
    menus_give_listed_values [.resolve [] "github.ref_type"] listed
  obtain ⟨n, before, result, ending, -, performed⟩ :=
    asks ["branch", "tag"] (by decide) "Pick" start
  exact ⟨listed, kept, still _ _ _ own kept, n, before, result, ending,
    congrArg Prod.fst performed⟩

/-- A superscript is a digit but no number. -/
theorem menu_fails_at_a_superscript :
    ((choose "Pick" ["a", "b"]).perform { answers := { texts := ["²", "2"] } }).1 =
        .error .numeral ∧
      ¬Legible "²" ∧ Names ["a", "b"] "2" "b" := by
  refine ⟨rfl, fun legible => ?_, .number (n := 1) (by decide) rfl⟩
  exact absurd (legible (by decide) (by decide)).1 (by decide)

end Rehearsal
