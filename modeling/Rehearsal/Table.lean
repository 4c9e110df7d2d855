/-! A table lists keys with values in the order in which the keys were first written. Writing a key
again keeps its place and its first spelling and changes the value. -/

namespace Rehearsal

abbrev Table (κ α : Type) := List (κ × α)

namespace Table

variable {κ α : Type} [BEq κ]

def find? (key : κ) : Table κ α → Option α
  | [] => none
  | (k, v) :: rest => if k == key then some v else find? key rest

def has (key : κ) (t : Table κ α) : Bool := (find? key t).isSome

def put (key : κ) (value : α) : Table κ α → Table κ α
  | [] => [(key, value)]
  | (k, v) :: rest => if k == key then (k, value) :: rest else (k, v) :: put key value rest

def putAll (entries : List (κ × α)) (t : Table κ α) : Table κ α :=
  entries.foldl (fun t (k, v) => put k v t) t

/-- The table of a list of entries, in which a key may stand more than once. -/
def ofList (entries : List (κ × α)) : Table κ α := putAll entries []

def Distinct (t : Table κ α) : Prop := t.Pairwise fun a b => (a.1 == b.1) = false

theorem Distinct.put {t : Table κ α} (distinct : Distinct t) (key : κ) (value : α) :
    Distinct (Table.put key value t) := by
  have keys (t : Table κ α) : ∀ entry ∈ Table.put key value t,
      entry.1 = key ∨ ∃ other ∈ t, other.1 = entry.1 := by
    induction t with
    | nil => simp [Table.put]
    | cons first rest ih =>
      simp only [Table.put]
      split
      · grind
      · grind
  induction t with
  | nil => exact List.pairwise_singleton ..
  | cons first rest ih =>
    obtain ⟨k, v⟩ := first
    obtain ⟨different, others⟩ := List.pairwise_cons.mp distinct
    simp only [Table.put]
    split
    · exact List.pairwise_cons.mpr ⟨different, others⟩
    · next other =>
      refine List.pairwise_cons.mpr ⟨?_, ih others⟩
      intro entry member
      cases keys rest entry member with
      | inl same => rw [same]; exact Bool.eq_false_iff.mpr other
      | inr old =>
        obtain ⟨earlier, stands, same⟩ := old
        rw [← same]
        exact different earlier stands

theorem forall_mem_put {Good : κ × α → Prop} {key : κ} {value : α} {t : Table κ α}
    (respects : ∀ k v, Good (k, v) → Good (k, value)) (new : Good (key, value))
    (old : ∀ entry ∈ t, Good entry) : ∀ entry ∈ put key value t, Good entry := by
  induction t with
  | nil => simpa [put] using new
  | cons first rest ih =>
    obtain ⟨k, v⟩ := first
    obtain ⟨own, others⟩ := List.forall_mem_cons.mp old
    rw [put]
    split
    · exact List.forall_mem_cons.mpr ⟨respects k v own, others⟩
    · exact List.forall_mem_cons.mpr ⟨own, ih others⟩

theorem forall_mem_ofList (Key : κ → Prop) (Result : α → Prop) {entries : List (κ × α)}
    (each : ∀ entry ∈ entries, Key entry.1 ∧ Result entry.2) :
    ∀ entry ∈ ofList entries, Key entry.1 ∧ Result entry.2 := by
  have adds (t : Table κ α) (old : ∀ entry ∈ t, Key entry.1 ∧ Result entry.2) :
      ∀ entry ∈ putAll entries t, Key entry.1 ∧ Result entry.2 := by
    induction entries generalizing t with
    | nil => exact old
    | cons first rest ih =>
      obtain ⟨own, others⟩ := List.forall_mem_cons.mp each
      refine ih others _ (forall_mem_put ?_ own old)
      intro k v good
      exact ⟨good.1, own.2⟩
  exact adds [] (by simp)

theorem find?_put_self [ReflBEq κ] (key : κ) (value : α) (t : Table κ α) :
    find? key (put key value t) = some value := by
  induction t with
  | nil => simp [put, find?]
  | cons entry rest ih =>
    obtain ⟨k, v⟩ := entry
    simp only [put]
    split
    · next same => simp [find?, same]
    · next other => simp [find?, other, ih]

theorem find?_put_of_ne [LawfulBEq κ] {key other : κ} (ne : other ≠ key) (value : α)
    (t : Table κ α) : find? other (put key value t) = find? other t := by
  induction t with
  | nil => simp [put, find?, ne.symm]
  | cons entry rest ih =>
    obtain ⟨k, v⟩ := entry
    simp only [put]
    split
    · next same =>
      obtain rfl := eq_of_beq same
      simp [find?, ne.symm]
    · simp [find?, ih]

end Table
end Rehearsal
