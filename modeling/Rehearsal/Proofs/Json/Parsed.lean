import Rehearsal.Json.Parse
import Rehearsal.Proofs.Number.Rounded
import Rehearsal.Proofs.Value.Flaw

/-! A value that was read from JSON can be written again: its integers are short, and it has neither
dates nor sets nor parts that contain it. -/

namespace Rehearsal

/-! ### Readings

A reading takes something off the start of a text and gives it with what is left, or is refused.
`Reads` tells what is taken off, and follows the ways in which readings are put together.
-/

theorem bind_eq_ok {ε α β : Type} {x : Except ε α} {f : α → Except ε β} {b : β}
    (ok : x >>= f = .ok b) : ∃ a, x = .ok a ∧ f a = .ok b := by
  cases x with
  | error e => cases ok
  | ok a => exact ⟨a, rfl, ok⟩

def Reads {ε σ α : Type} (Result : α → Prop) (reading : Except ε (α × σ)) : Prop :=
  ∀ a rest, reading = .ok (a, rest) → Result a

namespace Reads

variable {ε σ α β : Type} {Result : α → Prop} {Further : β → Prop}

theorem error (e : ε) : Reads Result (.error e : Except ε (α × σ)) := fun _ _ read => nomatch read

theorem ok {a : α} {rest : σ} (result : Result a) :
    Reads Result (.ok (a, rest) : Except ε (α × σ)) := by
  intro _ _ read
  cases read
  exact result

theorem map {reading : Except ε (α × σ)} {f : α → β} (reads : Reads Result reading)
    (further : ∀ a, Result a → Further (f a)) :
    Reads Further (reading.map fun (a, rest) => (f a, rest)) := by
  intro b rest read
  cases reading with
  | error e => cases read
  | ok pair =>
    cases read
    exact further _ (reads _ _ rfl)

theorem bind {reading : Except ε (α × σ)} {next : α × σ → Except ε (β × σ)}
    (reads : Reads Result reading) (further : ∀ a rest, Result a → Reads Further (next (a, rest))) :
    Reads Further (reading >>= next) := by
  cases reading with
  | error e => exact error e
  | ok pair => exact further pair.1 pair.2 (reads _ _ rfl)

end Reads

namespace Text

theorem numeral_lt {base : Nat} {digits : List Nat} (small : ∀ d ∈ digits, d < base) :
    numeral base digits < base ^ digits.length := by
  have bound (n : Nat) :
      digits.foldl (fun n d => n * base + d) n + 1 ≤ (n + 1) * base ^ digits.length := by
    induction digits generalizing n with
    | nil => simp
    | cons d rest ih =>
      obtain ⟨own, others⟩ := List.forall_mem_cons.mp small
      rw [List.foldl_cons, List.length_cons, Nat.pow_succ']
      calc rest.foldl (fun n d => n * base + d) (n * base + d) + 1
        _ ≤ (n * base + d + 1) * base ^ rest.length := ih others _
        _ ≤ ((n + 1) * base) * base ^ rest.length := by
          refine Nat.mul_le_mul_right _ ?_
          rw [Nat.add_mul]
          omega
        _ = (n + 1) * (base * base ^ rest.length) := Nat.mul_assoc ..
  have := bound 0
  rw [Nat.zero_add, Nat.one_mul] at this
  exact this

end Text

namespace Numeral

theorem lt_of_digitIn? {base : Nat} {c : Char} {d : Nat} (digit : digitIn? base c = some d) :
    d < base := by
  obtain ⟨value, -, small⟩ := Option.bind_eq_some_iff.mp digit
  split at small
  · next less =>
    cases small
    exact less
  · cases small

theorem digits_of_mapM {base : Nat} {s : List Char} {digits : List Nat}
    (read : s.mapM (digitIn? base) = some digits) : ∀ d ∈ digits, d < base := by
  induction s generalizing digits with
  | nil =>
    cases read
    simp
  | cons c s ih =>
    rw [List.mapM_cons] at read
    obtain ⟨d, first, read⟩ := Option.bind_eq_some_iff.mp read
    obtain ⟨others, rest, same⟩ := Option.bind_eq_some_iff.mp read
    cases same
    exact List.forall_mem_cons.mpr ⟨lt_of_digitIn? first, ih rest⟩

theorem text?_of_integer? {s : List Char} {i : Int} (read : integer? 10 s = some i) :
    (text? i).isSome = true := by
  obtain ⟨joined, -, read⟩ := Option.bind_eq_some_iff.mp read
  obtain ⟨digits, values, read⟩ := Option.bind_eq_some_iff.mp read
  split at read
  · cases read
  · next fits =>
    have few : digits.length ≤ maxDigits := by
      have := not_or.mp fits
      exact Nat.not_lt.mp fun long => this.2 ⟨rfl, long⟩
    have size : i.natAbs = Text.numeral 10 digits := by
      cases Option.some.inj read
      split <;> simp
    refine text?_of_lt ?_ few
    rw [size]
    exact Text.numeral_lt (digits_of_mapM values)

theorem text?_neg {i : Int} (short : (text? i).isSome = true) : (text? (-i)).isSome = true := by
  unfold text? at *
  rw [Int.natAbs_neg]
  split at short
  · cases short
  · next small =>
    rw [if_neg small]
    rfl

end Numeral

namespace Value.Within

variable {Flaw : Unfit → Prop}

theorem float (d : Double) : (Value.float d).Within Flaw := fun _ flaw => nomatch flaw

theorem int {i : Int} (short : (Numeral.text? i).isSome = true) : (Value.int i).Within Flaw := by
  intro u flaw
  rw [Value.hasFlaw, Scalar.hasFlaw] at flaw
  cases written : Numeral.text? i with
  | none =>
    rw [written] at short
    cases short
  | some s => simp [written] at flaw

end Value.Within

namespace Json

variable {Flaw : Unfit → Prop} {s rest : List Char}

theorem number_within {negative : Bool} {v : Value}
    (read : number negative s = .ok (v, rest)) : v.Within Flaw := by
  unfold number at read
  split at read
  · cases read
  · dsimp only at read
    split at read
    · split at read
      · next i whole =>
        cases read
        have short := Numeral.text?_of_integer? whole
        refine .int ?_
        split
        · exact Numeral.text?_neg short
        · exact short
      · cases read
    · split at read
      · cases read
        exact .float _
      · cases read

theorem atom_within {v : Value} (read : atom s = .ok (v, rest)) : v.Within Flaw := by
  unfold atom at read
  split at read
  · next reading found =>
    cases read
    obtain ⟨⟨word, value⟩, listed, after⟩ := List.exists_of_findSome?_eq_some found
    obtain ⟨_, -, same⟩ := Option.map_eq_some_iff.mp after
    cases same
    have words : ∀ entry ∈ words, entry.2.Within Flaw := by
      simp only [words, List.forall_mem_cons]
      exact ⟨.null, .bool _, .bool _, .float _, .float _, .float _, by simp⟩
    exact words _ listed
  · split at read
    · exact number_within read
    · exact number_within read

def Entry (Flaw : Unfit → Prop) (entry : Scalar × Value) : Prop :=
  (Value.scalar entry.1).Within Flaw ∧ entry.2.Within Flaw

theorem parts_within (Flaw : Unfit → Prop) (fuel : Nat) :
    (∀ s, Reads (Value.Within Flaw) (value fuel s)) ∧
      (∀ s, Reads (fun vs => ∀ v ∈ vs, v.Within Flaw) (items fuel s)) ∧
      ∀ s, Reads (fun kvs => ∀ entry ∈ kvs, Entry Flaw entry) (entries fuel s) := by
  induction fuel with
  | zero => exact ⟨fun _ => .error _, fun _ => .error _, fun _ => .error _⟩
  | succ fuel ih =>
    obtain ⟨values, lists, mappings⟩ := ih
    refine ⟨fun s => ?_, fun s => ?_, fun s => ?_⟩
    · unfold value
      split
      · cases ‹_›
      · exact .map (fun _ _ _ => trivial) fun text _ => .str text
      · next same =>
        cases same
        split
        · exact .ok (.list (by simp))
        · exact .map (lists _) fun vs each => .list each
      · next same =>
        cases same
        split
        · exact .ok (.map (by simp) (by simp))
        · refine .map (f := fun kvs => Value.map (Table.ofList kvs)) (mappings _) fun kvs each => ?_
          have each := Table.forall_mem_ofList (fun k => (Value.scalar k).Within Flaw)
            (Value.Within Flaw) each
          exact .map (fun entry member => (each entry member).1)
            fun entry member => (each entry member).2
      · exact fun _ _ read => atom_within read
    · unfold items
      refine .bind (values s) fun v rest own => ?_
      dsimp only
      split
      · exact .ok (by simpa using own)
      · exact .bind (lists _) fun vs rest others => .ok (List.forall_mem_cons.mpr ⟨own, others⟩)
      · exact .error _
    · unfold entries
      split
      · cases ‹_›
      · next same =>
        cases same
        refine .bind (fun _ _ _ => trivial) fun name rest _ => ?_
        dsimp only
        split
        · refine .bind (values _) fun v rest own => ?_
          have entry : Entry Flaw (.str name, v) := ⟨.str name, own⟩
          dsimp only
          split
          · exact .ok (by simpa using entry)
          · exact .bind (mappings _) fun kvs rest others =>
              .ok (List.forall_mem_cons.mpr ⟨entry, others⟩)
          · exact .error _
        · exact .error _
      · exact .error _

theorem parse_within {text : String} {v : Value} (parsed : parse text = .ok v) :
    v.Within Flaw := by
  unfold parse at parsed
  dsimp only at parsed
  generalize 2 * text.toList.length + 2 = fuel at parsed
  cases read : value fuel (skip text.toList) with
  | error refusal =>
    rw [read] at parsed
    cases parsed
  | ok result =>
    rw [read] at parsed
    simp only [bind, Except.bind] at parsed
    split at parsed
    · cases parsed
      exact (parts_within Flaw fuel).1 _ _ _ read
    · cases parsed

theorem exists_text_of_within {v : Value} (flawless : v.Within fun _ => False)
    (spacing : Spacing) : ∃ written, text spacing v = .ok written := by
  cases told : text spacing v with
  | ok written => exact ⟨written, rfl⟩
  | error u => exact (flawless u (hasFlaw_of_text told)).elim

end Json
end Rehearsal
