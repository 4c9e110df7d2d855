import Mathlib.Data.List.Induction
import Rehearsal.Context

/-! Keys are compared as numbers where they are numbers, whatever their kind. Still every key has
one mark by which it is found (`Scalar.beq_iff_mark`), so that writing under one key leaves all
others as they are, and what is recorded for one step or job is not seen for another. -/

namespace Rehearsal

/-- What a key is found by. -/
inductive Mark where
  | null
  | nan
  | number (units : Int)
  | str (s : String)
  | date (d : Date)
  | moment (known : Bool) (instant : Int)
  | bytes (b : List UInt8)
  deriving DecidableEq

namespace Double

def mark (d : Double) : Mark := d.rank?.elim .nan .number

/-- The place of an integer in the order of doubles, in units. -/
def place (i : Int) : Int := i * one

theorem one_pos : 0 < one := by decide +kernel

theorem place_injective {i j : Int} : place i = place j ↔ i = j :=
  Int.mul_eq_mul_right_iff (Int.natCast_ne_zero.mpr (Nat.ne_of_gt one_pos))

theorem eq_or_isNaN_iff {d e : Double} :
    (d.eq e || (d.isNaN && e.isNaN)) = true ↔ d.mark = e.mark := by
  unfold eq related isNaN mark
  cases d.rank? <;> cases e.rank? <;> simp

theorem eqInt_iff {d : Double} {i : Int} : d.eqInt i = true ↔ d.mark = .number (place i) := by
  show (d.rank? == some (place i)) = true ↔ _
  unfold mark
  cases d.rank? <;> simp

end Double

namespace Scalar

def mark : Scalar → Mark
  | null => .null
  | bool b => .number (Double.place (if b then 1 else 0))
  | int i => .number (Double.place i)
  | float d => d.mark
  | str s => .str s
  | date d => .date d
  | moment m => .moment m.offset.isSome m.instant
  | bytes b => .bytes b

theorem sameNumber_iff {i j : Int} : sameNumber (.inl i) (.inl j) = true ↔
    Mark.number (Double.place i) = .number (Double.place j) := by
  rw [Mark.number.injEq, Double.place_injective, sameNumber, beq_iff_eq]

theorem beq_iff_mark {a b : Scalar} : (a == b) = true ↔ a.mark = b.mark := by
  show (a.same b || (a.isNaN && b.isNaN)) = true ↔ _
  have apart (d : Double) : d.mark = .nan ∨ ∃ units, d.mark = .number units := by
    unfold Double.mark
    cases d.rank? <;> simp
  cases a with
  | float d =>
    cases b with
    | float e => exact Double.eq_or_isNaN_iff
    | bool | int => simp [same, number?, sameNumber, isNaN, Double.eqInt_iff, mark]
    | _ =>
      rcases apart d with marked | ⟨units, marked⟩ <;> simp [same, number?, isNaN, mark, marked]
  | bool | int =>
    cases b with
    | float e =>
      simp only [same, number?, sameNumber, isNaN, Bool.false_and, Bool.or_false, mark]
      exact Double.eqInt_iff.trans eq_comm
    | bool | int =>
      simp only [same, number?, isNaN, Bool.false_and, Bool.or_false, mark]
      exact sameNumber_iff
    | _ => simp [same, number?, isNaN, mark]
  | _ =>
    cases b with
    | float e =>
      rcases apart e with marked | ⟨units, marked⟩ <;>
        simp [same, number?, isNaN, mark, marked]
    | _ => simp [same, number?, isNaN, mark, Moment.same]

instance : EquivBEq Scalar where
  symm same := beq_iff_mark.mpr (beq_iff_mark.mp same).symm
  trans first rest := beq_iff_mark.mpr ((beq_iff_mark.mp first).trans (beq_iff_mark.mp rest))

end Scalar

/-! ### Tables -/

namespace Table

variable {κ α : Type} [BEq κ]

theorem put_of_absent {key : κ} {t : Table κ α} (absent : ∀ entry ∈ t, (entry.1 == key) = false)
    (value : α) : put key value t = t ++ [(key, value)] := by
  induction t with
  | nil => rfl
  | cons first rest ih =>
    obtain ⟨own, others⟩ := List.forall_mem_cons.mp absent
    rw [put, own, ih others]
    rfl

theorem putAll_of_distinct {entries t : Table κ α} (distinct : Distinct (t ++ entries)) :
    putAll entries t = t ++ entries := by
  induction entries generalizing t with
  | nil => exact (List.append_nil t).symm
  | cons first rest ih =>
    have absent : ∀ entry ∈ t, (entry.1 == first.1) = false := fun entry member =>
      (List.pairwise_append.mp distinct).2.2 entry member first List.mem_cons_self
    show putAll rest (put first.1 first.2 t) = _
    rw [put_of_absent absent, ih (by simpa using distinct)]
    simp

theorem ofList_of_distinct {t : Table κ α} (distinct : Distinct t) : ofList t = t :=
  putAll_of_distinct (t := []) distinct

theorem distinct_putAll (entries : List (κ × α)) {t : Table κ α} (distinct : Distinct t) :
    Distinct (putAll entries t) := by
  induction entries generalizing t with
  | nil => exact distinct
  | cons first rest ih => exact ih (distinct.put ..)

theorem ofList_ofList (entries : List (κ × α)) : ofList (ofList entries) = ofList entries :=
  ofList_of_distinct (distinct_putAll entries .nil)

theorem ofList_concat (entries : List (κ × α)) (key : κ) (value : α) :
    ofList (entries ++ [(key, value)]) = put key value (ofList entries) := by
  rw [ofList, putAll, List.foldl_append]
  rfl

variable [EquivBEq κ]

theorem find?_congr {key other : κ} (same : (key == other) = true) (t : Table κ α) :
    find? key t = find? other t := by
  induction t with
  | nil => rfl
  | cons entry rest ih => rw [find?, find?, ih, BEq.congr_right same]

theorem find?_put (key other : κ) (value : α) (t : Table κ α) :
    find? other (put key value t) = if key == other then some value else find? other t := by
  induction t with
  | nil => rfl
  | cons entry rest ih =>
    obtain ⟨k, v⟩ := entry
    rw [put]
    split
    · next same =>
      rw [find?, find?, BEq.congr_left same]
      split <;> rfl
    · next ne =>
      rw [find?, find?, ih]
      split
      · next found =>
        have differs : ¬(key == other) = true := fun same =>
          ne (BEq.trans found (BEq.symm same))
        rw [if_neg differs]
      · rfl

theorem find?_putAll (key : κ) (entries : List (κ × α)) (t : Table κ α) :
    find? key (putAll entries t) = (find? key (ofList entries)).or (find? key t) := by
  induction entries generalizing t with
  | nil => rfl
  | cons first rest ih =>
    obtain ⟨k, v⟩ := first
    have whole (t : Table κ α) : putAll ((k, v) :: rest) t = putAll rest (put k v t) := rfl
    rw [ofList, whole, whole, ih (put k v t), ih (put k v []), find?_put, find?_put,
      Option.or_assoc]
    split
    · rfl
    · rfl

theorem find?_ofList_cons (key k : κ) (v : α) (rest : List (κ × α)) :
    find? key (ofList ((k, v) :: rest)) =
      (find? key (ofList rest)).or (if k == key then some v else none) := by
  have whole : ofList ((k, v) :: rest) = putAll rest (put k v []) := rfl
  rw [whole, find?_putAll, find?_put]
  rfl

theorem isSome_find?_ofList (key : κ) (entries : List (κ × α)) :
    (find? key (ofList entries)).isSome = (entries.map (·.1)).any (· == key) := by
  induction entries with
  | nil => rfl
  | cons first rest ih =>
    obtain ⟨k, v⟩ := first
    rw [find?_ofList_cons, Option.isSome_or, ih, List.map_cons, List.any_cons, Bool.or_comm]
    cases k == key <;> rfl

theorem find?_append_cons {key : κ} {before : Table κ α}
    (absent : ∀ entry ∈ before, (entry.1 == key) = false) (value : α) (after : Table κ α) :
    find? key (before ++ (key, value) :: after) = some value := by
  induction before with
  | nil => rw [List.nil_append, find?, if_pos BEq.rfl]
  | cons entry before ih =>
    obtain ⟨first, others⟩ := List.forall_mem_cons.mp absent
    rw [List.cons_append, find?, first, if_neg Bool.false_ne_true]
    exact ih others

theorem find?_ofList_of_none {key : κ} {t : Table κ α} (none : find? key t = none) :
    find? key (ofList t) = .none := by
  induction t with
  | nil => rfl
  | cons entry rest ih =>
    obtain ⟨k, v⟩ := entry
    rw [find?] at none
    split at none
    · cases none
    · next other => rw [find?_ofList_cons, ih none, if_neg other, Option.none_or]

theorem find?_ofList_or {entries others : List (κ × α)}
    (same : entries.map (·.1) = others.map (·.1)) (key : κ) :
    (find? key (ofList entries)).or (find? key (ofList others)) = find? key (ofList entries) := by
  cases found : find? key (ofList entries) with
  | some value => rfl
  | none =>
    have absent := isSome_find?_ofList key entries
    rw [found, same, ← isSome_find?_ofList] at absent
    rw [Option.none_or, ← Option.not_isSome_iff_eq_none, ← absent]
    exact Bool.false_ne_true

theorem find?_ofList_reverse (key : κ) (entries : List (κ × α)) :
    find? key (ofList entries) = find? key entries.reverse := by
  induction entries using List.reverseRecOn with
  | nil => rfl
  | append_singleton entries entry ih =>
    obtain ⟨k, v⟩ := entry
    rw [ofList_concat, find?_put, ih, List.reverse_concat, find?]

end Table

namespace Table

variable {κ α : Type} [BEq κ] [LawfulBEq κ]

theorem map_fst_put (key : κ) (value : α) (t : Table κ α) :
    (put key value t).map (·.1) = t.map (·.1) ++ [key].removeAll (t.map (·.1)) := by
  induction t with
  | nil => rfl
  | cons entry rest ih =>
    obtain ⟨k, v⟩ := entry
    rw [put]
    split
    · next same => simp [List.removeAll, eq_of_beq same]
    · next other =>
      have new : (key == k) = false := beq_false_of_ne fun same => other (beq_iff_eq.mpr same.symm)
      have shorter (ks : List κ) : [key].removeAll (k :: ks) = [key].removeAll ks := by
        simp only [List.removeAll, List.filter_cons, List.filter_nil, List.elem_cons, new]
      rw [List.map_cons, List.map_cons, ih, shorter, List.cons_append]

theorem map_fst_ofList (entries : List (κ × α)) :
    (ofList entries).map (·.1) = (entries.map (·.1)).eraseDups := by
  induction entries using List.reverseRecOn with
  | nil => rfl
  | append_singleton entries entry ih =>
    obtain ⟨k, v⟩ := entry
    have once (ks : List κ) : [k].removeAll ks.eraseDups = ([k].removeAll ks).eraseDups := by
      by_cases old : k ∈ ks
      · simp [List.removeAll, old]
      · simp [List.removeAll, old, List.eraseDups_cons]
    rw [ofList_concat, map_fst_put, ih, List.map_append, List.eraseDups_append, once]
    rfl

end Table

/-! ### Outputs -/

namespace Context

theorem stepOutput?_recordStep (c : Context) (job other : Scalar) (step id : String)
    (outputs : Outputs) (name : String) :
    (c.recordStep job step outputs).stepOutput? other id name =
      if job == other ∧ step = id then
        (Table.find? name (Table.ofList outputs)).or (c.stepOutput? other id name)
      else c.stepOutput? other id name := by
  simp only [stepOutput?, recordStep, Option.bind_eq_bind, Table.find?_put]
  by_cases own : (job == other) = true
  · rw [if_pos own, Option.bind_some, Table.find?_put, Table.find?_congr own]
    by_cases same : step = id
    · rw [if_pos (beq_iff_eq.mpr same), if_pos ⟨own, same⟩, Option.bind_some,
        Table.find?_putAll, same]
      cases Table.find? other c.steps with
      | none => rfl
      | some steps => cases found : Table.find? id steps <;> simp [found, Table.find?]
    · rw [if_neg (mt beq_iff_eq.mp same), if_neg fun both => same both.2]
      cases Table.find? other c.steps <;> rfl
  · rw [if_neg own, if_neg fun both => own both.1]

theorem jobOutput?_recordJob (c : Context) (job other : Scalar) (name value output : String) :
    (c.recordJob job name value).jobOutput? other output =
      if job == other ∧ name = output then some value else c.jobOutput? other output := by
  simp only [jobOutput?, recordJob, Option.bind_eq_bind, Table.find?_put]
  by_cases own : (job == other) = true
  · rw [if_pos own, Option.bind_some, Table.find?_put, Table.find?_congr own]
    by_cases same : name = output
    · rw [if_pos (beq_iff_eq.mpr same), if_pos ⟨own, same⟩]
    · rw [if_neg (mt beq_iff_eq.mp same), if_neg fun both => same both.2]
      cases Table.find? other c.jobs <;> rfl
  · rw [if_neg own, if_neg fun both => own both.1]

end Context
end Rehearsal
