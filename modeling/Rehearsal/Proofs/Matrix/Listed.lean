import Rehearsal.Matrix
import Rehearsal.Proofs.Json.Parsed
import Rehearsal.Proofs.Variable.Decoded

/-! A matrix whose only axis is the placeholder of an expression has one instance for each item of
the list that the expression comes to as JSON: `perform_expand_placeholder`. -/

namespace Rehearsal

open Play Expression

namespace Matrix

variable {scope : Scope} {s t : Session}

theorem choices_single (key : Scalar) (values : List Value) :
    choices [(key, values)] = values.map fun value => [(key, value)] := by
  rw [choices, choices]
  exact List.flatMap_pure_eq_map _ _

theorem combinations_single (key : Scalar) (values : List Value) :
    combinations [(key, values)] [] [] = values.map fun value => [(key, value)] := by
  simp [combinations, choices_single]

theorem perform_forIn_noted {α : Type} {items : List α} {f : α → PUnit → Play (ForInStep PUnit)}
    (each : ∀ a ∈ items, ∀ s, ∃ t, (f a ⟨⟩).perform s = (.ok (.yield ⟨⟩), t) ∧ s.Noted t)
    (s : Session) : ∃ t, (forIn items ⟨⟩ f).perform s = (.ok ⟨⟩, t) ∧ s.Noted t := by
  induction items generalizing s with
  | nil => exact ⟨s, rfl, [], nofun, rfl⟩
  | cons a rest ih =>
    obtain ⟨own, others⟩ := List.forall_mem_cons.mp each
    obtain ⟨t, first, noted⟩ := own s
    obtain ⟨u, done, further⟩ := ih others t
    refine ⟨u, ?_, noted.trans further⟩
    rw [List.forIn_cons, perform_bind_ok first]
    exact done

theorem perform_logCombinations {found : List Mapping}
    (told : ∀ bindings ∈ found, ∃ text, Json.text .airy (.map bindings) = .ok text)
    (s : Session) : ∃ t, (logCombinations found).perform s = (.ok (), t) ∧ s.Noted t := by
  unfold logCombinations
  obtain ⟨u, titled, first⟩ := Session.Noted.log .info
    ("[MATRIX] Matrix combinations (" ++ toString found.length ++ "):") s
  rw [info, perform_bind_ok titled]
  have each : ∀ pair ∈ found.zipIdx, ∀ s, ∃ t, (do
      info (toString (pair.2 + 1) ++ ". " ++ (← fit (Json.text .airy (.map pair.1))))
      return ForInStep.yield PUnit.unit : Play (ForInStep PUnit)).perform s =
        (.ok (.yield ⟨⟩), t) ∧ s.Noted t := by
    intro pair member s
    obtain ⟨text, own⟩ := told pair.1 (List.fst_mem_of_mem_zipIdx member)
    obtain ⟨t, logged, noted⟩ :=
      Session.Noted.log .info (toString (pair.2 + 1) ++ ". " ++ text) s
    have fits : (fit (Json.text .airy (.map pair.1)) : Play String) = pure text := by
      rw [own]
      rfl
    refine ⟨t, ?_, noted⟩
    rw [fits, pure_bind, info, perform_bind_ok logged]
    rfl
  obtain ⟨t, done, second⟩ := perform_forIn_noted (f := fun pair _ => _) each u
  refine ⟨t, ?_, first.trans second⟩
  exact (perform_bind_ok done).trans rfl

theorem exists_text_of_binding {v : Value} (within : v.Within fun _ => False) (axis : String)
    (spacing : Json.Spacing) : ∃ text, Json.text spacing (.map [(.str axis, v)]) = .ok text :=
  Json.exists_text_of_within
    (.map (List.forall_mem_singleton.mpr (.str axis)) (List.forall_mem_singleton.mpr within)) _

theorem perform_axisValues_placeholder {expression text : String} {items : List Value}
    (canonical : Placeholder.IsCanonical expression)
    (given : (substitute scope expression).perform s = (.ok text, t))
    (parsed : Json.parse text = .ok (.list items)) :
    ∃ u, (axisValues scope (.str (String.ofList (Placeholder.of expression)))).perform s =
      (.ok items, u) ∧ t.Noted u := by
  obtain ⟨u, filled, noted⟩ := perform_fill_placeholder canonical given "matrix"
  have opens : Text.contains (String.ofList (Placeholder.of expression)) "$\x7b\x7b" = true := by
    have text : (String.ofList (Placeholder.of expression)).toList = Placeholder.of expression :=
      String.toList_ofList
    refine Text.occurs_of_isInfix ?_
    rw [text]
    exact ⟨[], _, rfl⟩
  have resolved : (resolveJson scope (String.ofList (Placeholder.of expression))).perform s =
      (.ok (.list items), u) := by
    rw [resolveJson, perform_bind_ok filled, parsed]
    rfl
  refine ⟨u, ?_, noted⟩
  rw [axisValues]
  dsimp only
  rw [opens, if_pos rfl, perform_bind_ok resolved]
  rfl

theorem perform_expand_axis {axis : String} {value : Value} {items : List Value}
    (values : (axisValues scope value).perform s = (.ok items, t)) (nonempty : items ≠ [])
    (told : ∀ v ∈ items, ∃ text, Json.text .airy (.map [(.str axis, v)]) = .ok text)
    (free : isReserved (.str axis) = false) :
    ∃ u, (expand scope (.map [(.str axis, value)])).perform s =
      (.ok (items.map fun v => [(.str axis, v)]), u) ∧ t.Noted u := by
  obtain ⟨u, logged, noted⟩ := perform_logCombinations (List.forall_mem_map.mpr told) t
  refine ⟨u, ?_, noted⟩
  let matrix : Mapping := [(.str axis, value)]
  have absent {name : String} (other : (Scalar.str axis == .str name) = false) :
      (statedEntries scope ((Table.find? (.str name) matrix).getD .null)) = pure [] := by
    rw [Table.find?, other]
    rfl
  obtain ⟨included, excluded⟩ := Bool.or_eq_false_iff.mp free
  have axes {test : Scalar × Value → Bool} (kept : test (.str axis, value) = true) :
      matrix.filter test = matrix := by
    simp [matrix, kept]
  show (expandMapping scope matrix).perform s = _
  rw [expandMapping, absent included, absent excluded, pure_bind, pure_bind,
    axes (by simp [free])]
  simp only [matrix, List.mapM_cons, List.mapM_nil, bind_assoc, pure_bind]
  have some : (items.map fun v => [(Scalar.str axis, v)]).isEmpty = false := by
    simpa using nonempty
  rw [perform_bind_ok values, combinations_single, some, if_neg Bool.false_ne_true,
    perform_bind_ok logged]
  rfl

/-- A matrix whose only axis is the placeholder of an expression has an instance for each item of
the list that the expression comes to as JSON. -/
theorem perform_expand_placeholder {expression text axis : String} {items : List Value}
    (canonical : Placeholder.IsCanonical expression)
    (given : (substitute scope expression).perform s = (.ok text, t))
    (parsed : Json.parse text = .ok (.list items)) (nonempty : items ≠ [])
    (free : isReserved (.str axis) = false) :
    ∃ u, (expand scope (.map [(.str axis,
        .str (String.ofList (Placeholder.of expression)))])).perform s =
      (.ok (items.map fun v => [(.str axis, v)]), u) ∧ t.Noted u := by
  obtain ⟨u, values, first⟩ := perform_axisValues_placeholder canonical given parsed
  have told : ∀ v ∈ items, ∃ text, Json.text .airy (.map [(.str axis, v)]) = .ok text :=
    fun v member => exists_text_of_binding ((Json.parse_within parsed).mem member) axis _
  obtain ⟨w, expanded, second⟩ := perform_expand_axis values nonempty told free
  exact ⟨w, expanded, first.trans second⟩

end Matrix
end Rehearsal
