import Rehearsal.Proofs.Secrets.Masked
import Rehearsal.Proofs.Value.Inside

/-! The strings of a mapping are masked, at any depth of mappings and in the lists that are met
there. A list or a mapping inside such a list is passed over, so everything is masked just when
masking would change nothing in those: `nested_texts_are_masked`. -/

namespace Rehearsal

namespace Value

/-- That a value is made of scalars, lists and mappings only. -/
inductive Nested : Value → Prop
  | scalar (s : Scalar) : Nested (scalar s)
  | list {items : List Value} (own : ∀ v ∈ items, Nested v) : Nested (list items)
  | map {entries : List (Scalar × Value)} (own : ∀ e ∈ entries, Nested e.2) : Nested (map entries)

@[simp]
theorem nested_scalar (s : Scalar) : (scalar s).Nested := .scalar s

@[simp]
theorem nested_list_iff {items : List Value} : (list items).Nested ↔ ∀ v ∈ items, v.Nested := by
  constructor
  · intro nested
    cases nested with
    | list own => exact own
  · exact .list

@[simp]
theorem nested_map_iff {entries : List (Scalar × Value)} :
    (map entries).Nested ↔ ∀ e ∈ entries, e.2.Nested := by
  constructor
  · intro nested
    cases nested with
    | map own => exact own
  · exact .map

mutual

/-- A value with its strings changed, at any depth of lists and mappings. -/
def mapTexts (f : String → String) : Value → Value
  | str text => str (f text)
  | list items => list (mapItems f items)
  | map entries => map (mapEntries f entries)
  | v => v

def mapItems (f : String → String) : List Value → List Value
  | [] => []
  | v :: vs => mapTexts f v :: mapItems f vs

def mapEntries (f : String → String) : List (Scalar × Value) → List (Scalar × Value)
  | [] => []
  | (k, v) :: rest => (k, mapTexts f v) :: mapEntries f rest

end

variable {f : String → String}

theorem mapTexts_list (items : List Value) :
    mapTexts f (list items) = list (items.map (mapTexts f)) := by
  rw [mapTexts]
  congr 1
  induction items with
  | nil => rfl
  | cons v vs ih => rw [mapItems, ih, List.map_cons]

theorem mapTexts_map (entries : List (Scalar × Value)) :
    mapTexts f (map entries) = map (entries.map fun e => (e.1, e.2.mapTexts f)) := by
  rw [mapTexts]
  congr 1
  induction entries with
  | nil => rfl
  | cons e rest ih => rw [mapEntries, ih, List.map_cons]

theorem inside_mapTexts {text : String} {v : Value} (nested : v.Nested)
    (inside : Inside (str text) (v.mapTexts f)) :
    ∃ original, Inside (str original) v ∧ f original = text := by
  induction nested with
  | scalar s =>
    cases s with
    | str original =>
      cases inside
      exact ⟨original, .self _, rfl⟩
    | _ => cases inside
  | list own ih =>
    rw [mapTexts_list] at inside
    cases inside with
    | item member inside =>
      obtain ⟨v, listed, rfl⟩ := List.mem_map.mp member
      obtain ⟨original, own, same⟩ := ih v listed inside
      exact ⟨original, .item listed own, same⟩
  | map own ih =>
    rw [mapTexts_map] at inside
    cases inside with
    | entry member inside =>
      obtain ⟨e, listed, rfl⟩ := List.mem_map.mp member
      obtain ⟨original, own, same⟩ := ih e listed inside
      exact ⟨original, .entry listed own, same⟩

end Value

namespace Secrets

open Value (Inside Nested)

variable {s : Secrets} {v : Value}

/-- That a collection is an item of a list which is reached by way of entries only. -/
inductive PassedOver (v : Value) : Value → Prop
  | item {items : List Value} (member : v ∈ items) (collection : ∀ a, v ≠ .scalar a) :
      PassedOver v (.list items)
  | entry {e : Scalar × Value} {entries : List (Scalar × Value)} (member : e ∈ entries)
      (deeper : PassedOver v e.2) : PassedOver v (.map entries)

@[simp]
theorem not_passedOver_scalar {a : Scalar} : ¬PassedOver v (.scalar a) := nofun

@[simp]
theorem passedOver_list_iff {items : List Value} :
    PassedOver v (.list items) ↔ v ∈ items ∧ ∀ a, v ≠ .scalar a := by
  constructor
  · intro passed
    cases passed with
    | item member collection => exact ⟨member, collection⟩
  · intro ⟨member, collection⟩
    exact .item member collection

@[simp]
theorem passedOver_map_iff {entries : List (Scalar × Value)} :
    PassedOver v (.map entries) ↔ ∃ e ∈ entries, PassedOver v e.2 := by
  constructor
  · intro passed
    cases passed with
    | entry member deeper => exact ⟨_, member, deeper⟩
  · intro ⟨e, member, deeper⟩
    exact .entry member deeper

def maskValue (s : Secrets) : Value → Value
  | .map entries => .map (s.maskEntries entries)
  | .list items => .list (items.map s.maskString)
  | v => s.maskString v

theorem maskEntries_eq (s : Secrets) (entries : List (Scalar × Value)) :
    s.maskEntries entries = entries.map fun e => (e.1, s.maskValue e.2) := by
  induction entries with
  | nil => rw [maskEntries, List.map_nil]
  | cons e rest ih =>
    obtain ⟨key, v⟩ := e
    rw [List.map_cons, ← ih]
    cases v with
    | map entries => rw [maskEntries, maskValue]
    | list items => rw [maskEntries, maskValue]
    | _ =>
      rw [maskEntries]
      · rfl
      all_goals simp

theorem maskString_scalar (s : Secrets) (a : Scalar) :
    s.maskString (.scalar a) = (Value.scalar a).mapTexts s.mask := by
  cases a <;> rfl

theorem maskString_collection (collection : ∀ a, v ≠ .scalar a) : s.maskString v = v := by
  cases v with
  | scalar a => exact (collection a rfl).elim
  | _ => rfl

theorem mapTexts_maskString (s : Secrets) (v : Value) :
    (s.maskString v).mapTexts (fun _ => "") = v.mapTexts fun _ => "" := by
  cases v with
  | scalar a => cases a <;> rfl
  | _ => rfl

theorem mapTexts_maskValue (nested : v.Nested) :
    (s.maskValue v).mapTexts (fun _ => "") = v.mapTexts fun _ => "" := by
  induction nested with
  | scalar a => exact mapTexts_maskString s (.scalar a)
  | list own ih =>
    rw [maskValue, Value.mapTexts_list, Value.mapTexts_list, List.map_map]
    congr 1
    exact List.map_congr_left fun v _ => mapTexts_maskString s v
  | map own ih =>
    rw [maskValue, maskEntries_eq, Value.mapTexts_map, Value.mapTexts_map, List.map_map]
    congr 1
    refine List.map_congr_left fun e member => ?_
    exact congrArg (Prod.mk e.1) (ih e member)

theorem maskValue_eq_iff (nested : v.Nested) : s.maskValue v = v.mapTexts s.mask ↔
    ∀ part, PassedOver part v → part.mapTexts s.mask = part := by
  induction nested with
  | scalar a =>
    have same : s.maskValue (.scalar a) = (Value.scalar a).mapTexts s.mask := maskString_scalar s a
    simp [same]
  | @list items own ih =>
    rw [maskValue, Value.mapTexts_list, Value.list.injEq, List.map_inj_left]
    constructor
    · intro all part passed
      obtain ⟨member, collection⟩ := passedOver_list_iff.mp passed
      exact (all part member).symm.trans (maskString_collection collection)
    · intro kept v member
      by_cases collection : ∀ a, v ≠ .scalar a
      · rw [maskString_collection collection, kept v (.item member collection)]
      · push Not at collection
        obtain ⟨a, rfl⟩ := collection
        exact maskString_scalar s a
  | @map entries own ih =>
    rw [maskValue, maskEntries_eq, Value.mapTexts_map, Value.map.injEq, List.map_inj_left]
    constructor
    · intro all part passed
      obtain ⟨e, member, deeper⟩ := passedOver_map_iff.mp passed
      exact (ih e member).mp (congrArg Prod.snd (all e member)) part deeper
    · intro kept e member
      have same := (ih e member).mpr fun part passed => kept part (.entry member passed)
      exact congrArg (Prod.mk e.1) same

/-- **Masked mappings.** A mapping keeps its shape, its keys and all that is no string. All strings
in it are masked just when masking changes no string of a collection that is an item of a list; no
string then has a secret in it that is free of the mark. -/
theorem nested_texts_are_masked (values : List String) {entries : List (Scalar × Value)}
    (nested : (Value.map entries).Nested) :
    let s := entered values
    let masked := Value.map (s.maskEntries entries)
    (masked.mapTexts (fun _ => "") = (Value.map entries).mapTexts fun _ => "") ∧
      (masked = (Value.map entries).mapTexts s.mask ↔
        ∀ part, PassedOver part (.map entries) → part.mapTexts s.mask = part) ∧
      ((∀ part, PassedOver part (.map entries) → part.mapTexts s.mask = part) →
        ∀ text, Inside (.str text) masked → ∀ secret ∈ values, secret ≠ "" →
          '*' ∉ secret.toList → ¬secret.toList <:+: text.toList) := by
  intro s masked
  have exactly : masked = (Value.map entries).mapTexts s.mask ↔
      ∀ part, PassedOver part (.map entries) → part.mapTexts s.mask = part :=
    maskValue_eq_iff nested
  refine ⟨mapTexts_maskValue nested, exactly, ?_⟩
  intro kept text inside secret member nonempty plain
  rw [exactly.mpr kept] at inside
  obtain ⟨original, -, rfl⟩ := Value.inside_mapTexts nested inside
  exact not_isInfix_mask (mem_entered.mpr ⟨member, nonempty⟩) plain nonempty original

/-- A mapping in a mapping, and a list in a list in which no secret stands. -/
theorem nested_texts_are_masked_deep :
    let s := entered ["pw"]
    let entries : List (Scalar × Value) :=
      [(.str "b", .map [(.str "c", .str "x-pw")]),
        (.str "d", .list [.str "pw", .int 3, .list [.str "x"]])]
    (Value.map entries).Nested ∧
      (∀ part, PassedOver part (.map entries) → part.mapTexts s.mask = part) ∧
      s.maskEntries entries = [(.str "b", .map [(.str "c", .str "x-***")]),
        (.str "d", .list [.str "***", .int 3, .list [.str "x"]])] := by
  intro s entries
  have masks : s.mask "x-pw" = "x-***" ∧ s.mask "pw" = "***" ∧ s.mask "x" = "x" := by
    simp only [s, mask_eq_maskAlong]
    rw [longestFirst_eq_values (by decide +kernel)]
    decide +kernel
  have nested : (Value.map entries).Nested := by simp [entries]
  have kept : ∀ part, PassedOver part (.map entries) → part.mapTexts s.mask = part := by
    simp [entries, Value.mapTexts, Value.mapItems, masks]
  obtain ⟨-, exactly, -⟩ := nested_texts_are_masked ["pw"] nested
  refine ⟨nested, kept, Value.map.inj ((exactly.mpr kept).trans ?_)⟩
  simp [entries, Value.mapTexts, Value.mapEntries, Value.mapItems, s, masks]

/-- A list inside a list, or a mapping inside one, keeps its secrets. -/
theorem secrets_in_lists_of_collections_are_kept :
    let s := entered ["hunter2"]
    let entries : List (Scalar × Value) :=
      [(.str "env", .list [.map [(.str "TOKEN", .str "hunter2")], .list [.str "hunter2"]])]
    (Value.map entries).Nested ∧ s.maskEntries entries = entries ∧
      Inside (.str "hunter2") (.map (s.maskEntries entries)) ∧ s.mask "hunter2" = "***" := by
  intro s entries
  have same : s.maskEntries entries = entries := by simp [entries, maskEntries, maskString]
  refine ⟨by simp [entries], same, ?_, ?_⟩
  · rw [same]
    exact .entry (.head _) (.item (.head _) (.entry (.head _) (.self _)))
  · rw [mask_eq_maskAlong, longestFirst_eq_values (by decide +kernel)]
    decide +kernel

end Secrets
end Rehearsal
