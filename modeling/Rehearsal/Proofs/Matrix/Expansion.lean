import Mathlib.Data.Set.Card
import Rehearsal.Proofs.Matrix.Listed

/-! A matrix with axes has one instance for each choice of a place on every axis, unless an excluded
entry matches the values at these places, and then one for each included entry. The choices come in
the lexicographic order of their places: `matrices_expand_in_order`. -/

namespace Rehearsal.Matrix

open Play

variable {scope : Scope} {axes : List (Scalar × List Value)} {places : List Nat} {s t u : Session}

/-! ### Places on axes -/

def Chooses (axes : List (Scalar × List Value)) (places : List Nat) : Prop :=
  List.Forall₂ (fun axis place => place < axis.2.length) axes places

/-- Each key with the value at the place that is chosen on its axis. -/
def bindingsAt (axes : List (Scalar × List Value)) (places : List Nat) : Mapping :=
  List.zipWith (fun axis place => (axis.1, axis.2[place]?.getD .null)) axes places

/-- That an entry says of each of its keys what the bindings say. -/
def Matches (bindings entry : Mapping) : Prop :=
  ∀ key value, (key, value) ∈ entry →
    ∃ bound, Table.find? key bindings = some bound ∧ bound.same value = true

/-- That no excluded entry matches the bindings at these places. -/
def Remains (axes : List (Scalar × List Value)) (excluded : List Mapping) (places : List Nat) :
    Prop :=
  Chooses axes places ∧ ∀ entry ∈ excluded, ¬Matches (bindingsAt axes places) entry

def allPlaces : List (Scalar × List Value) → List (List Nat)
  | [] => [[]]
  | axis :: axes =>
    (List.range axis.2.length).flatMap fun place => (allPlaces axes).map (place :: ·)

theorem mem_allPlaces : places ∈ allPlaces axes ↔ Chooses axes places := by
  induction axes generalizing places with
  | nil => simp [allPlaces, Chooses]
  | cons axis axes ih =>
    simp only [allPlaces, List.mem_flatMap, List.mem_range, List.mem_map, Chooses,
      List.forall₂_cons_left_iff]
    constructor
    · rintro ⟨place, within, rest, member, rfl⟩
      exact ⟨place, rest, within, ih.mp member, rfl⟩
    · rintro ⟨place, rest, within, chosen, rfl⟩
      exact ⟨place, within, rest, ih.mpr chosen, rfl⟩

theorem sorted_allPlaces (axes : List (Scalar × List Value)) :
    (allPlaces axes).Pairwise (· < ·) := by
  induction axes with
  | nil => exact List.pairwise_singleton ..
  | cons axis axes ih =>
    rw [allPlaces, List.pairwise_flatMap]
    constructor
    · intro place _
      refine List.pairwise_map.mpr (ih.imp fun less => ?_)
      exact List.cons_lt_cons_iff.mpr (.inr ⟨rfl, less⟩)
    · refine List.pairwise_lt_range.imp fun less => ?_
      intro first member second other
      obtain ⟨rest, -, rfl⟩ := List.mem_map.mp member
      obtain ⟨further, -, rfl⟩ := List.mem_map.mp other
      exact List.cons_lt_cons_iff.mpr (.inl less)

theorem range_map_getD {α : Type} (items : List α) (default : α) :
    (List.range items.length).map (fun place => items[place]?.getD default) = items := by
  refine List.ext_getElem (by simp) fun place within _ => ?_
  simp at within
  simp [within]

theorem choices_eq (axes : List (Scalar × List Value)) :
    choices axes = (allPlaces axes).map (bindingsAt axes) := by
  induction axes with
  | nil => rfl
  | cons axis axes ih =>
    obtain ⟨key, values⟩ := axis
    have values' := range_map_getD values Value.null
    rw [choices, allPlaces, List.map_flatMap]
    conv_lhs => rw [← values']
    simp only [List.flatMap_map, ih, List.map_map]
    rfl

theorem agrees_iff {bindings entry : Mapping} :
    agrees bindings entry = true ↔ Matches bindings entry := by
  rw [agrees, List.all_eq_true, Matches, Prod.forall]
  refine forall_congr' fun key => forall_congr' fun value => imp_congr_right fun _ => ?_
  dsimp only
  cases found : Table.find? key bindings with
  | none => simp
  | some bound => simp

/-- The places whose bindings are left after the exclusions, in their order. -/
def remaining (axes : List (Scalar × List Value)) (excluded : List Mapping) : List (List Nat) :=
  (allPlaces axes).filter fun places => !excluded.any (agrees (bindingsAt axes places))

theorem mem_remaining {excluded : List Mapping} :
    places ∈ remaining axes excluded ↔ Remains axes excluded places := by
  rw [remaining, List.mem_filter, mem_allPlaces, Remains]
  simp [← agrees_iff]

theorem sorted_remaining (axes : List (Scalar × List Value)) (excluded : List Mapping) :
    (remaining axes excluded).Pairwise (· < ·) := (sorted_allPlaces axes).filter _

theorem eq_remaining {excluded : List Mapping} {chosen : List (List Nat)}
    (sorted : chosen.Pairwise (· < ·))
    (exact : ∀ places, places ∈ chosen ↔ Remains axes excluded places) :
    chosen = remaining axes excluded := by
  have ordered := sorted_remaining axes excluded
  have members (places : List Nat) : places ∈ chosen ↔ places ∈ remaining axes excluded :=
    (exact places).trans mem_remaining.symm
  have perm := (List.perm_ext_iff_of_nodup (sorted.imp ne_of_lt) (ordered.imp ne_of_lt)).mpr members
  exact perm.eq_of_pairwise (fun _ _ _ _ less more => absurd more (lt_asymm less)) sorted ordered

theorem combinations_eq (some : axes ≠ []) (excluded included : List Mapping) :
    combinations axes excluded included =
      (remaining axes excluded).map (bindingsAt axes) ++ included := by
  have nonempty : axes.isEmpty = false := by simpa using some
  rw [combinations, nonempty, if_neg Bool.false_ne_true, choices_eq, List.filter_map]
  rfl

theorem length_remaining (axes : List (Scalar × List Value)) (excluded : List Mapping) :
    (remaining axes excluded).length = {places | Remains axes excluded places}.ncard := by
  have distinct : (remaining axes excluded).Nodup :=
    (sorted_remaining axes excluded).imp fun less => ne_of_lt less
  have same : {places | Remains axes excluded places} =
      ((remaining axes excluded).toFinset : Set (List Nat)) := by
    ext places
    simp [mem_remaining]
  rw [same, Set.ncard_coe_finset, List.toFinset_card_of_nodup distinct]

theorem not_chooses {axis : Scalar × List Value} (member : axis ∈ axes) (empty : axis.2 = [])
    (places : List Nat) : ¬Chooses axes places := by
  intro chosen
  induction chosen with
  | nil => cases member
  | cons within _ ih =>
    rcases List.mem_cons.mp member with rfl | later
    · rw [empty] at within
      exact absurd within (Nat.not_lt_zero _)
    · exact ih later

theorem exists_axis_of_mem (chosen : Chooses axes places) {entry : Scalar × Value}
    (member : entry ∈ bindingsAt axes places) :
    ∃ axis ∈ axes, entry.1 = axis.1 ∧ entry.2 ∈ axis.2 := by
  induction chosen with
  | nil => cases member
  | @cons axis place axes places within _ ih =>
    rcases List.mem_cons.mp member with rfl | later
    · refine ⟨axis, List.mem_cons_self, rfl, ?_⟩
      simp [within]
    · obtain ⟨other, known, own⟩ := ih later
      exact ⟨other, List.mem_cons_of_mem _ known, own⟩

/-! ### The parts of a matrix -/

/-- That axes come to these values, one after the other. -/
inductive Resolves (scope : Scope) :
    List (Scalar × Value) → Session → List (Scalar × List Value) → Session → Prop
  | none {s : Session} : Resolves scope [] s [] s
  | axis {key : Scalar} {value : Value} {values : List Value} {stated : List (Scalar × Value)}
      {axes : List (Scalar × List Value)} {s t u : Session}
      (own : (axisValues scope value).perform s = (.ok values, t))
      (others : Resolves scope stated t axes u) :
      Resolves scope ((key, value) :: stated) s ((key, values) :: axes) u

/-- That a matrix comes to these axes and entries. The entries are found before the axes. -/
inductive Parts (scope : Scope) (matrix : Mapping) (s : Session)
    (axes : List (Scalar × List Value)) (excluded included : List Mapping) (t : Session) : Prop
  | found {u v : Session}
      (includes : (statedEntries scope ((Table.find? (.str "include") matrix).getD .null)).perform
        s = (.ok included, u))
      (excludes : (statedEntries scope ((Table.find? (.str "exclude") matrix).getD .null)).perform
        u = (.ok excluded, v))
      (resolves : Resolves scope (matrix.filter fun entry => !isReserved entry.1) v axes t)

theorem Resolves.perform_mapM {stated : List (Scalar × Value)}
    (resolves : Resolves scope stated s axes t) :
    (stated.mapM fun entry => do return (entry.1, ← axisValues scope entry.2) :
      Play (List (Scalar × List Value))).perform s = (.ok axes, t) := by
  induction resolves with
  | none => rfl
  | axis own others ih =>
    rw [List.mapM_cons, perform_bind_ok ((perform_bind_ok own).trans rfl), perform_bind_ok ih]
    rfl

theorem expand_of_mapping {value : Value} {matrix : Mapping} (own : value.mapping? = some matrix)
    (some : matrix ≠ []) : expand scope value = expandMapping scope matrix := by
  obtain ⟨entry, rest, rfl⟩ := List.exists_cons_of_ne_nil some
  unfold Value.mapping? at own
  split at own
  · next entries opened =>
    cases own
    cases value with
    | map entries =>
      cases opened
      rfl
    | again content =>
      cases opened
      rfl
    | _ => cases opened
  · cases own

/-- That a key and its value can be written in a log record. -/
def Writable (key : Scalar) (value : Value) : Prop :=
  (∃ name, Json.key key = .ok name) ∧ ∃ text, Json.render .airy value = .ok text

theorem exists_renderEntries {entries : Mapping}
    (each : ∀ entry ∈ entries, Writable entry.1 entry.2) :
    ∃ text, Json.renderEntries .airy entries = .ok text := by
  induction entries with
  | nil => exact ⟨_, rfl⟩
  | cons entry rest ih =>
    obtain ⟨⟨⟨name, named⟩, text, told⟩, others⟩ := List.forall_mem_cons.mp each
    obtain ⟨more, written⟩ := ih others
    rw [Json.renderEntries, named, told, written]
    exact ⟨_, rfl⟩

theorem exists_text_of_writable {entries : Mapping}
    (each : ∀ entry ∈ entries, Writable entry.1 entry.2) :
    ∃ text, Json.text .airy (.map entries) = .ok text := by
  have rendered : ∃ text, Json.render .airy (.map entries) = .ok text := by
    cases entries with
    | nil => exact ⟨_, rfl⟩
    | cons entry rest =>
      obtain ⟨⟨⟨name, named⟩, text, told⟩, others⟩ := List.forall_mem_cons.mp each
      obtain ⟨more, written⟩ := exists_renderEntries others
      rw [Json.render, named, told, written]
      exact ⟨_, rfl⟩
  obtain ⟨text, told⟩ := rendered
  refine ⟨String.ofList text, ?_⟩
  show (Json.render .airy (.map entries)).map String.ofList = _
  rw [told]
  rfl

/-! ### The expansion -/

theorem perform_expandMapping {matrix : Mapping} {excluded included : List Mapping}
    (parts : Parts scope matrix s axes excluded included t)
    (told : ∀ bindings ∈ combinations axes excluded included,
      ∃ text, Json.text .airy (.map bindings) = .ok text)
    (named : ∃ name, scope.job.plain = .ok name) :
    ∃ u, (expandMapping scope matrix).perform s =
      (.ok (combinations axes excluded included), u) ∧ t.Noted u := by
  obtain ⟨includes, excludes, resolves⟩ := parts
  obtain ⟨name, named⟩ := named
  rw [expandMapping, perform_bind_ok includes, perform_bind_ok excludes,
    perform_bind_ok resolves.perform_mapM]
  dsimp only
  split
  · next empty =>
    obtain ⟨u, warned, noted⟩ := Session.Noted.log .warning
      ("Matrix for job '" ++ name ++ "' has no combinations; no instances will run") t
    have fits : (fit scope.job.plain).perform t = (.ok name, t) := by
      rw [named]
      rfl
    refine ⟨u, ?_, noted⟩
    rw [perform_bind_ok fits, warning, perform_bind_ok warned, List.isEmpty_iff.mp empty]
    rfl
  · obtain ⟨u, logged, noted⟩ := perform_logCombinations told t
    refine ⟨u, ?_, noted⟩
    rw [perform_bind_ok logged]
    rfl

/-- **Expansion.** A matrix with axes is expanded to the bindings at all places that remain after
the exclusions, each once and in lexicographic order of the places, and then to the included
entries. Beside what is done to find the values, it is only told of. -/
theorem matrices_expand_in_order {value : Value} {matrix : Mapping}
    {excluded included : List Mapping} (own : value.mapping? = some matrix)
    (parts : Parts scope matrix s axes excluded included t) (declared : axes ≠ [])
    (writable : ∀ axis ∈ axes, ∀ v ∈ axis.2, Writable axis.1 v)
    (entries : ∀ bindings ∈ included, ∀ entry ∈ bindings, Writable entry.1 entry.2)
    (named : ∃ name, scope.job.plain = .ok name) :
    ∃ (chosen : List (List Nat)) (result : List Mapping) (u : Session),
      (expand scope value).perform s = (.ok result, u) ∧ t.Noted u ∧
      result = chosen.map (bindingsAt axes) ++ included ∧
      chosen.Pairwise (· < ·) ∧
      (∀ places, places ∈ chosen ↔ Remains axes excluded places) ∧
      result.length = {places | Remains axes excluded places}.ncard + included.length ∧
      ((∃ axis ∈ axes, axis.2 = []) → result = included) ∧
      (result = [] ↔ (∀ places, ¬Remains axes excluded places) ∧ included = []) := by
  have nonempty : matrix ≠ [] := by
    rintro rfl
    obtain ⟨-, -, resolves⟩ := parts
    cases resolves
    exact declared rfl
  -- What is logged stands on an axis or in an included entry, so it can be written.
  have told : ∀ bindings ∈ combinations axes excluded included,
      ∃ text, Json.text .airy (.map bindings) = .ok text := by
    rw [combinations_eq declared]
    intro bindings member
    rcases List.mem_append.mp member with product | stated
    · obtain ⟨places, remains, rfl⟩ := List.mem_map.mp product
      refine exists_text_of_writable fun entry known => ?_
      obtain ⟨axis, listed, key, listing⟩ := exists_axis_of_mem (mem_remaining.mp remains).1 known
      exact key ▸ writable axis listed entry.2 listing
    · exact exists_text_of_writable (entries bindings stated)
  obtain ⟨u, expanded, noted⟩ := perform_expandMapping parts told named
  rw [combinations_eq declared] at expanded
  refine ⟨remaining axes excluded, _, u, ?_, noted, rfl, sorted_remaining axes excluded,
    fun places => mem_remaining, ?_, ?_, ?_⟩
  · rw [expand_of_mapping own nonempty, expanded]
  · rw [List.length_append, List.length_map, length_remaining]
  · rintro ⟨axis, member, empty⟩
    have gone : remaining axes excluded = [] :=
      List.eq_nil_iff_forall_not_mem.mpr fun places remains =>
        not_chooses member empty places (mem_remaining.mp remains).1
    rw [gone]
    rfl
  · rw [List.append_eq_nil_iff, List.map_eq_nil_iff, List.eq_nil_iff_forall_not_mem]
    simp only [mem_remaining]

/-! ### A matrix with entries of both kinds -/

def mixedAxes : List (Scalar × List Value) :=
  [(.str "os", [.str "linux", .str "mac"]), (.str "n", [.bool true, .list [.bool true]])]

/-- Entries with numbers of other kinds than those on the axes. -/
def mixedExcluded : List Mapping :=
  [[(.str "os", .str "mac"), (.str "n", .float (.finite false (2 ^ 1074)))],
    [(.str "n", .list [.int 1]), (.str "os", .str "linux")]]

def mixedIncluded : List Mapping := [[(.str "os", .str "windows")]]

def mixedMatrix : Mapping :=
  (.str "exclude", .list (mixedExcluded.map .map)) ::
    (.str "include", .list (mixedIncluded.map .map)) ::
    mixedAxes.map fun axis => (axis.1, .list axis.2)

theorem matrices_expand_in_order_mixed :
    mixedAxes ≠ [] ∧ (∀ axis ∈ mixedAxes, ∀ v ∈ axis.2, Writable axis.1 v) ∧
      (∀ bindings ∈ mixedIncluded, ∀ entry ∈ bindings, Writable entry.1 entry.2) ∧
      ∃ u, (expand ⟨[], .str "build", []⟩ (.map mixedMatrix)).perform {} =
        (.ok [[(.str "os", .str "linux"), (.str "n", .bool true)],
          [(.str "os", .str "mac"), (.str "n", .list [.bool true])],
          [(.str "os", .str "windows")]], u) := by
  have string (name text : String) : Writable (.str name) (.str text) := ⟨⟨_, rfl⟩, _, rfl⟩
  have numbers : ∀ v ∈ [Value.bool true, .list [.bool true]], Writable (.str "n") v :=
    List.forall_mem_cons.mpr ⟨⟨⟨_, rfl⟩, _, rfl⟩,
      List.forall_mem_singleton.mpr ⟨⟨_, rfl⟩, _, rfl⟩⟩
  have writable : ∀ axis ∈ mixedAxes, ∀ v ∈ axis.2, Writable axis.1 v :=
    List.forall_mem_cons.mpr ⟨List.forall_mem_cons.mpr ⟨string _ _,
      List.forall_mem_singleton.mpr (string _ _)⟩, List.forall_mem_singleton.mpr numbers⟩
  have entries : ∀ bindings ∈ mixedIncluded, ∀ entry ∈ bindings, Writable entry.1 entry.2 :=
    List.forall_mem_singleton.mpr (List.forall_mem_singleton.mpr (string _ _))
  have parts : Parts ⟨[], .str "build", []⟩ mixedMatrix {} mixedAxes mixedExcluded mixedIncluded
      {} := .found rfl rfl (.axis rfl (.axis rfl .none))
  refine ⟨nofun, writable, entries, ?_⟩
  obtain ⟨chosen, result, u, expanded, -, rfl, sorted, exact, -⟩ :=
    matrices_expand_in_order (show (Value.map mixedMatrix).mapping? = some mixedMatrix from rfl)
      parts nofun writable entries ⟨"build", rfl⟩
  refine ⟨u, ?_⟩
  have left : remaining mixedAxes mixedExcluded = [[0, 0], [1, 1]] := by decide +kernel
  have same : chosen = [[0, 0], [1, 1]] := (eq_remaining sorted exact).trans left
  rw [expanded, same]
  rfl

end Rehearsal.Matrix
