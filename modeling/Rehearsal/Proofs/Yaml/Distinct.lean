import Rehearsal.Yaml.Parse

/-! No mapping in the value of a document has a key twice: `proper_of_parse`. -/

namespace Rehearsal

inductive Value.Proper : Value → Prop where
  | scalar (s : Scalar) : Proper (.scalar s)
  | set (members : List Scalar) : Proper (.set members)
  | list {items : List Value} (parts : ∀ v ∈ items, Proper v) : Proper (.list items)
  | map {entries : List (Scalar × Value)} (distinct : Table.Distinct entries)
      (parts : ∀ entry ∈ entries, Proper entry.2) : Proper (.map entries)
  | pair {key value : Value} (first : Proper key) (second : Proper value) :
      Proper (.pair key value)
  | again {content : Value} (inside : Proper content) : Proper (.again content)

namespace Yaml.Document

/-! ### Meanings -/

def Meaning.Proper : Meaning → Prop
  | .map entries => Table.Distinct entries
  | _ => True

def Draft.Proper (d : Draft) : Prop :=
  ∀ (n : Nat) (meaning : Meaning), d.meanings[n]? = some (some meaning) → meaning.Proper

/-- That a computation keeps drafts proper, and what its results are. -/
structure Drafts {α : Type} (Result : α → Prop) (drafting : Drafting α) : Prop where
  keeps : ∀ d : Draft, d.Proper → ∀ a e, drafting.run d = .ok (a, e) → Result a ∧ e.Proper

namespace Drafts

variable {α β : Type} {Result : α → Prop} {Further : β → Prop}

theorem pure {a : α} (result : Result a) : Drafts Result (Pure.pure a) := by
  constructor
  intro d proper b e run
  cases run
  exact ⟨result, proper⟩

theorem throw (refusal : Refusal) : Drafts Result (MonadExcept.throw refusal) := by
  constructor
  intro d proper b e run
  cases run

theorem bind {drafting : Drafting α} {next : α → Drafting β} (first : Drafts Result drafting)
    (rest : ∀ a, Result a → Drafts Further (next a)) : Drafts Further (drafting >>= next) := by
  constructor
  intro d proper b f run
  rw [StateT.run_bind] at run
  cases performed : drafting.run d with
  | error refusal =>
    rw [performed] at run
    cases run
  | ok pair =>
    obtain ⟨a, e⟩ := pair
    rw [performed] at run
    obtain ⟨result, kept⟩ := first.keeps d proper a e performed
    exact (rest a result).keeps e kept b f run

theorem get_bind {next : Draft → Drafting β} (rest : ∀ d, d.Proper → Drafts Further (next d)) :
    Drafts Further (MonadState.get >>= next) := by
  constructor
  intro d proper b e run
  exact (rest d proper).keeps d proper b e run

theorem modify {f : Draft → Draft} (kept : ∀ d, d.Proper → (f d).Proper) :
    Drafts (fun _ => True) (modify f : Drafting PUnit) := by
  constructor
  intro d proper b e run
  cases run
  exact ⟨trivial, kept d proper⟩

theorem lift {result : Except Refusal α} : Drafts (fun _ => True) (liftM result : Drafting α) := by
  constructor
  intro d proper a e run
  cases result with
  | error refusal => cases run
  | ok b =>
    cases run
    exact ⟨trivial, proper⟩

theorem forIn {items : List β} {f : β → PUnit → Drafting (ForInStep PUnit)}
    (each : ∀ b u, Drafts (fun _ => True) (f b u)) :
    Drafts (fun _ => True) (ForIn.forIn items PUnit.unit f) := by
  induction items with
  | nil => exact pure trivial
  | cons b rest ih =>
    rw [List.forIn_cons]
    refine bind (each b _) fun step _ => ?_
    cases step with
    | done u => exact pure trivial
    | yield u => exact ih

end Drafts

theorem keep_drafts (n : Nat) {meaning : Meaning} (proper : meaning.Proper) :
    Drafts (fun _ => True) (keep n meaning) := by
  refine .modify fun d kept => ?_
  intro m other found
  rw [Array.getElem?_setIfInBounds] at found
  split at found
  · split at found
    · cases found
      exact proper
    · cases found
  · exact kept m other found

theorem unfilled_proper {tag : Tag} {meaning : Meaning}
    (unfilled : Meaning.unfilled? tag = some meaning) : meaning.Proper := by
  unfold Meaning.unfilled? at unfilled
  split at unfilled
  · cases unfilled
    exact List.Pairwise.nil
  all_goals
    cases unfilled
    try exact trivial

theorem meet_drafts (n : Nat) : Drafts Meaning.Proper (meet n) := by
  refine .get_bind fun d proper => ?_
  split
  · next meaning found =>
    exact .pure (proper n meaning (Option.join_eq_some_iff.mp found))
  · refine .get_bind fun d proper => ?_
    split
    · next meaning unfilled =>
      have own := unfilled_proper unfilled
      exact .bind (keep_drafts n own) fun _ _ => .bind (.modify fun d kept => kept) fun _ _ =>
        .pure own
    · refine .get_bind fun d proper => .bind .lift fun s _ => ?_
      have own : (Meaning.scalar s).Proper := trivial
      exact .bind (keep_drafts n own) fun _ _ => .pure own

theorem meetEntries_drafts (entries : List (Nat × Nat)) {table : Table Rehearsal.Scalar Nat}
    (distinct : Table.Distinct table) : Drafts Table.Distinct (meetEntries entries table) := by
  induction entries generalizing table with
  | nil => exact .pure distinct
  | cons entry rest ih =>
    obtain ⟨key, value⟩ := entry
    refine .bind (meet_drafts key) fun meaning _ => ?_
    cases meaning with
    | scalar s => exact .bind (meet_drafts value) fun _ _ => ih (distinct.put s value)
    | _ => exact .throw _

theorem meetPairs_drafts (items : List Nat) :
    Drafts (fun _ => True) (meetPairs items) := by
  induction items with
  | nil => exact .pure trivial
  | cons item rest ih =>
    refine .get_bind fun d proper => ?_
    split
    · exact .bind (meet_drafts _) fun _ _ => .bind (meet_drafts _) fun _ _ =>
        .bind ih fun _ _ => .pure trivial
    · exact .throw _

theorem table_drafts (n : Nat) : Drafts Table.Distinct (filled.table n) := by
  refine .get_bind fun d proper => ?_
  split
  · refine .get_bind fun d proper => .bind .lift fun nodes _ =>
      .bind (.modify fun d kept => kept) fun _ _ => meetEntries_drafts _ .nil
  · exact .throw _

theorem filled_drafts (n : Nat) (meaning : Meaning) :
    Drafts Meaning.Proper (filled n meaning) := by
  cases meaning with
  | scalar s => exact .pure trivial
  | list items =>
    refine .get_bind fun d proper => ?_
    split
    · exact .bind (.forIn fun _ _ => .bind (meet_drafts _) fun _ _ => .pure trivial) fun _ _ =>
        .pure trivial
    · exact .throw _
  | map entries => exact .bind (table_drafts n) fun table distinct => .pure distinct
  | set members => exact .bind (table_drafts n) fun table _ => .pure trivial
  | pairs entries =>
    refine .get_bind fun d proper => ?_
    split
    · exact .bind (meetPairs_drafts _) fun _ _ => .pure trivial
    · exact .throw _

theorem fillOne_drafts (n : Nat) : Drafts (fun _ => True) (fillOne n) :=
  .bind (meet_drafts n) fun _ _ => .bind (filled_drafts n _) fun _ proper => keep_drafts n proper

theorem fillAll_drafts (fuel : Nat) : Drafts (fun _ => True) (fillAll fuel) := by
  induction fuel with
  | zero => exact .throw _
  | succ fuel ih =>
    refine .get_bind fun d proper => ?_
    split
    · exact .pure trivial
    · exact .bind (.modify fun d kept => kept) fun _ _ => .bind (.forIn fun _ _ =>
        .bind (fillOne_drafts _) fun _ _ => .pure trivial) fun _ _ => ih

theorem proper_of_meanings {d : Document} {meanings : Array Meaning}
    (found : d.meanings = .ok meanings) : ∀ meaning ∈ meanings, meaning.Proper := by
  have filled : Drafts (fun _ => True) (do
      let _ ← meet d.root
      fillAll (d.nodes.size + 1)) :=
    .bind (meet_drafts _) fun _ _ => fillAll_drafts _
  unfold Document.meanings at found
  dsimp only at found
  generalize ran : StateT.run _ _ = result at found
  cases result with
  | error refusal => cases found
  | ok result =>
  obtain ⟨u, draft⟩ := result
  cases found
  have empty :
      Draft.Proper { nodes := d.nodes, meanings := Array.replicate d.nodes.size none } := by
    intro n meaning known
    rw [Array.getElem?_replicate] at known
    split at known
    · cases known
    · cases known
  obtain ⟨-, kept⟩ := filled.keeps _ empty _ _ ran
  intro meaning member
  obtain ⟨stored, within, rfl⟩ := Array.mem_map.mp member
  cases stored with
  | none => exact trivial
  | some meaning =>
    obtain ⟨n, bound, same⟩ := Array.getElem_of_mem within
    exact kept n meaning (by rw [Array.getElem?_eq_getElem bound, same])

/-! ### Values -/

def ProperValues (values : Array (Option Value)) : Prop :=
  ∀ (n : Nat) (v : Value), values[n]? = some (some v) → v.Proper

theorem setIfInBounds_proper {values : Array (Option Value)} (proper : ProperValues values)
    (n : Nat) {v : Value} (own : v.Proper) :
    ProperValues (values.setIfInBounds n (some v)) := by
  intro m other found
  rw [Array.getElem?_setIfInBounds] at found
  split at found
  · split at found
    · cases found
      exact own
    · cases found
  · exact proper m other found

/-- That a computation keeps values proper, and what its results are. -/
structure Unrolls {α : Type} (Result : α → Prop) (unrolling : Unrolling α) : Prop where
  keeps : ∀ values, ProperValues values →
    Result (unrolling.run values).1 ∧ ProperValues (unrolling.run values).2

namespace Unrolls

variable {α β : Type} {Result : α → Prop} {Further : β → Prop}

theorem pure {a : α} (result : Result a) : Unrolls Result (Pure.pure a) :=
  ⟨fun _ proper => ⟨result, proper⟩⟩

theorem bind {unrolling : Unrolling α} {next : α → Unrolling β} (first : Unrolls Result unrolling)
    (rest : ∀ a, Result a → Unrolls Further (next a)) : Unrolls Further (unrolling >>= next) := by
  constructor
  intro values proper
  obtain ⟨result, kept⟩ := first.keeps values proper
  exact (rest _ result).keeps _ kept

theorem get_bind {next : Array (Option Value) → Unrolling β}
    (rest : ∀ values, ProperValues values → Unrolls Further (next values)) :
    Unrolls Further (MonadState.get >>= next) := by
  constructor
  intro values proper
  exact (rest values proper).keeps values proper

theorem modify {f : Array (Option Value) → Array (Option Value)}
    (kept : ∀ values, ProperValues values → ProperValues (f values)) :
    Unrolls (fun _ => True) (modify f : Unrolling PUnit) :=
  ⟨fun values proper => ⟨trivial, kept values proper⟩⟩

theorem mapM {f : β → Unrolling α} (each : ∀ b, Unrolls Result (f b)) (items : List β) :
    Unrolls (fun parts : List α => ∀ part ∈ parts, Result part) (items.mapM f) := by
  induction items with
  | nil => exact pure (by simp)
  | cons b rest ih =>
    rw [List.mapM_cons]
    exact bind (each b) fun a first => bind ih fun parts others =>
      pure (List.forall_mem_cons.mpr ⟨first, others⟩)

end Unrolls

theorem distinct_zip {entries : Table Rehearsal.Scalar Nat} (distinct : Table.Distinct entries)
    (values : List Value) : Table.Distinct ((entries.map (·.1)).zip values) := by
  induction entries generalizing values with
  | nil => exact .nil
  | cons entry rest ih =>
    cases values with
    | nil => exact .nil
    | cons value values =>
      obtain ⟨different, others⟩ := List.pairwise_cons.mp distinct
      refine List.pairwise_cons.mpr ⟨?_, ih others values⟩
      rintro ⟨key, other⟩ member
      obtain ⟨stored, stands, rfl⟩ := List.mem_map.mp (List.of_mem_zip member).1
      exact different stored stands

def Unrolled.Proper (u : Unrolled) : Prop := u.value.Proper

theorem unroll_unrolls {meanings : Array Meaning} {contents : Array Value}
    (meant : ∀ meaning ∈ meanings, meaning.Proper) (inside : ∀ v ∈ contents, v.Proper)
    (fuel : Nat) (path : List Nat) (n : Nat) :
    Unrolls Unrolled.Proper (unroll meanings contents fuel path n) := by
  induction fuel generalizing path n with
  | zero => exact .pure (.scalar _)
  | succ fuel ih =>
    refine .get_bind fun values proper => ?_
    extract_lets part kept
    have keeps (u : Unrolled) (proper : u.Proper) : Unrolls Unrolled.Proper (kept u) := by
      dsimp only [kept]
      split
      · exact .bind (.modify fun values others => setIfInBounds_proper others n proper) fun _ _ =>
          .pure proper
      · exact .pure proper
    split
    · next value found => exact .pure (proper n value (Option.join_eq_some_iff.mp found))
    · split
      · refine .pure (.again ?_)
        cases content : contents[n]? with
        | none => exact .scalar _
        | some v => exact inside v (Array.mem_of_getElem? content)
      · split
        · exact .bind (.pure (.scalar _)) keeps
        · exact .bind (.pure (.set _)) keeps
        · refine .bind (.mapM (fun b => ih (n :: path) b) _) fun parts proper => keeps _ (.list ?_)
          intro v member
          obtain ⟨part, stands, rfl⟩ := List.mem_map.mp member
          exact proper part stands
        · next entries meaning =>
          refine .bind (.mapM (fun b => ih (n :: path) _) _) fun parts proper =>
            keeps _ (.map ?_ ?_)
          · refine distinct_zip ?_ _
            cases stored : meanings[n]? with
            | none =>
              rw [stored] at meaning
              cases meaning
            | some own =>
              rw [stored] at meaning
              cases meaning
              exact meant _ (Array.mem_of_getElem? stored)
          · rintro ⟨key, v⟩ member
            obtain ⟨part, stands, rfl⟩ := List.mem_map.mp (List.of_mem_zip member).2
            exact proper part stands
        · refine .bind (.mapM (fun b => ih (n :: path) _) _) fun keys first =>
            .bind (.mapM (fun b => ih (n :: path) _) _) fun parts second => keeps _ (.list ?_)
          intro v member
          rw [← List.map_uncurry_zip_eq_zipWith] at member
          obtain ⟨⟨key, part⟩, stands, rfl⟩ := List.mem_map.mp member
          obtain ⟨own, other⟩ := List.of_mem_zip stands
          exact .pair (first key own) (second part other)

theorem Unrolls.result {α : Type} {Result : α → Prop} {unrolling : Unrolling α}
    (unrolls : Unrolls Result unrolling) (count : Nat) :
    Result (Unrolling.result count unrolling) := by
  refine (unrolls.keeps (Array.replicate count none) ?_).1
  intro n v known
  rw [Array.getElem?_replicate] at known
  split at known
  · cases known
  · cases known

theorem contents_proper {meanings : Array Meaning}
    (meant : ∀ meaning ∈ meanings, meaning.Proper) (levels : Nat) :
    ∀ v ∈ contents meanings levels, v.Proper := by
  induction levels with
  | zero =>
    intro v member
    obtain ⟨meaning, -, rfl⟩ := Array.mem_map.mp member
    cases meaning with
    | map entries => exact .map .nil (by simp)
    | _ => exact .list (by simp)
  | succ levels ih =>
    intro v member
    have all := Unrolls.result (.mapM (unroll_unrolls meant ih (meanings.size + 1) [])
      (List.range meanings.size)) meanings.size
    obtain ⟨part, stands, rfl⟩ := List.mem_map.mp (List.mem_toArray.mp member)
    exact all part stands

theorem value_proper {d : Document} {v : Value} (found : d.value = .ok v) : v.Proper := by
  unfold Document.value at found
  cases known : d.meanings with
  | error refusal =>
    rw [known] at found
    cases found
  | ok meanings =>
    rw [known] at found
    have meant := proper_of_meanings known
    have rooted (inside : Array Value) (proper : ∀ v ∈ inside, v.Proper) :=
      (unroll_unrolls meant proper (meanings.size + 1) [] d.root).result meanings.size
    simp only [bind, Except.bind] at found
    split at found
    · cases found
      exact rooted #[] (by simp)
    · cases found
      exact rooted _ (contents_proper meant levels)

end Yaml.Document

/-- **Keys.** No mapping in the value of a text has a key twice. -/
theorem proper_of_parse {text : String} {v : Value} (parsed : Yaml.parse text = .ok v) :
    v.Proper := by
  unfold Yaml.parse at parsed
  cases read : Yaml.document text.toList with
  | error refusal =>
    rw [read] at parsed
    cases parsed
  | ok found =>
    rw [read] at parsed
    cases found with
    | none =>
      cases parsed
      exact .scalar _
    | some d => exact Yaml.Document.value_proper parsed

end Rehearsal
