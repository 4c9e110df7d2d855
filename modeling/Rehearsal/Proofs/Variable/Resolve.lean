import Rehearsal.Proofs.Play.Deed

/-! A resolved expression keeps its value, and no other expression loses one
(`resolved_of_resolve`). An expression that is read as JSON is resolved by way of the expression
inside it; `chain` lists the expressions on the way. -/

namespace Rehearsal

def Deed.Poses : Deed → Prop
  | remember _ _ => False
  | d => d.Inquires

theorem Deed.Poses.inquires {d : Deed} (h : d.Poses) : d.Inquires := by
  cases d <;> first | exact h | exact h.elim

theorem Does.inquires {α : Type} {play : Play α} (does : Does Deed.Poses play) :
    Does Deed.Inquires play := does.mono fun _ => Deed.Poses.inquires

/-- The deeds that tell of a value: they write log records or note a secret. -/
def Deed.Tells : Deed → Prop
  | log level message => saysStuck level message = false
  | register _ => True
  | _ => False

theorem Deed.Tells.poses {d : Deed} (h : d.Tells) : d.Poses := by
  cases d <;> first | exact h | exact h.elim

theorem Does.poses {α : Type} {play : Play α} (does : Does Deed.Tells play) :
    Does Deed.Poses play := does.mono fun _ => Deed.Tells.poses

namespace Play

theorem info_tells (message : String) : Does Deed.Tells (info message) :=
  .log (Deed.inquires_info message)

theorem isConfirmation_quoted (text : String) : Answers.isConfirmation (text ++ "'") = false := by
  simp [Answers.isConfirmation, Answers.confirmationEnd, List.isSuffixOf, List.isPrefixOf]

theorem isConfirmation_append (text : String) :
    Answers.isConfirmation (text ++ Answers.confirmationEnd) = true := by
  rw [Answers.isConfirmation, List.isSuffixOf_iff_suffix, String.toList_append]
  exact List.suffix_append ..

theorem chooseWithin_poses (options : List String) (tries : Nat) :
    Does Deed.Poses (chooseWithin options tries) := by
  induction tries with
  | zero => exact .throw _
  | succ tries ih =>
    refine .bind (.ask rfl) fun answer => .bind (.adopt _) fun chosen => ?_
    cases chosen with
    | some option => exact .pure option
    | none => exact .bind (.echo trivial) fun _ => ih

theorem choose_poses (text : String) (options : List String) :
    Does Deed.Poses (choose text options) := by
  refine .bind (.echo trivial) fun _ => .bind (.forIn fun _ _ => ?_) fun _ => ?_
  · exact .bind (.echo trivial) fun _ => .pure _
  · exact .bind .get fun _ => chooseWithin_poses ..

theorem freeText_poses {text : String} (default : String)
    (other : Answers.isConfirmation text = false) : Does Deed.Poses (freeText text default) :=
  .bind (.ask other) fun _ => .pure _

end Play

open Play

/-! ### Sources -/

theorem announced_tells (expression value : String) :
    Does Deed.Tells (Resolve.announced expression value) :=
  .bind (info_tells _) fun _ => .pure _

theorem announced_poses (expression value : String) :
    Does Deed.Poses (Resolve.announced expression value) := (announced_tells ..).poses

theorem normalizeJson_tells (inner text : String) :
    Does Deed.Tells (Resolve.normalizeJson inner text) := by
  unfold Resolve.normalizeJson
  split
  · exact announced_tells ..
  · exact .bind (.fit _) fun _ => .bind (info_tells _) fun _ => .pure _

theorem mem_suggestions {expression text default : String}
    (suggested : Source.of expression = .suggestion text default) :
    ∃ start, (start, text, default) ∈ Source.suggestions := by
  unfold Source.of at suggested
  split at suggested
  · next source found =>
    subst suggested
    simp only [Source.ofStart?, Option.or_eq_some_iff, Option.map_eq_some_iff] at found
    obtain ⟨⟨start, words⟩, looked, same⟩ :
        ∃ entry, Source.suggestions.find? (fun e => Text.startsWith expression e.1) = some entry ∧
          Source.suggestion entry.2.1 entry.2.2 = .suggestion text default := by grind
    cases same
    exact ⟨start, List.mem_of_find?_eq_some looked⟩
  · split at suggested
    · cases suggested
    · split at suggested <;> cases suggested

theorem isConfirmation_of_suggestion {expression text default : String}
    (suggested : Source.of expression = .suggestion text default) :
    Answers.isConfirmation text = false := by
  obtain ⟨start, member⟩ := mem_suggestions suggested
  have none : ∀ entry ∈ Source.suggestions, Answers.isConfirmation entry.2.1 = false := by decide
  exact none _ member

theorem fromSource_poses (workflow : Mapping) (expression : String) {source : Source}
    (own : Source.of expression = source) :
    Does Deed.Poses (Resolve.fromSource workflow expression source) := by
  cases source with
  | menu options => exact .bind (choose_poses ..) fun _ => announced_poses ..
  | secret name =>
    refine .bind (.ask (isConfirmation_quoted _)) fun value => .bind ?_ fun _ =>
      .bind (info_tells _).poses fun _ => .pure _
    exact .of_deed (.register value) (fun _ => rfl) trivial
  | environment name =>
    refine .bind (.adopt _) fun found => ?_
    cases found with
    | some value => exact .bind (.fit _) fun _ => announced_poses ..
    | none => exact .bind (freeText_poses _ (isConfirmation_quoted _)) fun _ => announced_poses ..
  | suggestion text default =>
    exact .bind (freeText_poses _ (isConfirmation_of_suggestion own)) fun _ => announced_poses ..
  | output job name =>
    refine .bind .get fun s => ?_
    split
    · exact .bind (info_tells _).poses fun _ => .pure _
    · exact .bind (freeText_poses _ (isConfirmation_quoted _)) fun _ => announced_poses ..
  | _ => exact .bind (freeText_poses _ (isConfirmation_quoted _)) fun _ => announced_poses ..

/-! ### The kept values -/

def Session.kept? (s : Session) (expression : String) : Option String :=
  Table.find? expression s.context.resolved

/-- That a later session has all values that an earlier one has kept. -/
def Session.Recalled (s t : Session) : Prop :=
  ∀ expression value, s.kept? expression = some value → t.kept? expression = some value

theorem Session.Recalled.refl (s : Session) : s.Recalled s := fun _ _ kept => kept

theorem Session.Recalled.trans {s t u : Session} (first : s.Recalled t) (rest : t.Recalled u) :
    s.Recalled u := fun expression value kept => rest _ _ (first expression value kept)

theorem Session.recalled_of_resolved {s t : Session}
    (same : t.context.resolved = s.context.resolved) : s.Recalled t := by
  intro expression value kept
  rw [Session.kept?, same]
  exact kept

theorem Deed.Poses.after_resolved {d : Deed} (h : d.Poses) (s : Session) :
    (d.after s).context.resolved = s.context.resolved := by
  cases d <;> first | exact h.elim | simp [after, play, Play.echo, Play.perform_discard]

theorem Does.resolved_eq {α : Type} {play : Play α} {s t : Session} {result : Except Fault α}
    (does : Does Deed.Poses play) (performed : play.perform s = (result, t)) :
    t.context.resolved = s.context.resolved := by
  have same := does.keeps (·.context.resolved) (fun d u kind => kind.after_resolved u) s
  rwa [performed] at same

/-! ### Resolving -/

@[simp]
theorem Session.kept?_remember (s : Session) (expression value other : String) :
    Session.kept? { s with context := s.context.remember expression value } other =
      if other = expression then some value else s.kept? other := by
  rw [Session.kept?, Context.remember]
  split
  · next same => rw [same, Table.find?_put_self]
  · next ne => exact Table.find?_put_of_ne ne ..

variable {workflow : Mapping} {expression : String} {s t : Session} {result : Except Fault String}

theorem perform_resolve_of_kept {value : String} (kept : s.kept? expression = some value) :
    (resolve workflow expression).perform s = (.ok value, s) := by
  rw [resolve, perform_get_bind, show Table.find? expression s.context.resolved = _ from kept]
  rfl

def found (workflow : Mapping) (expression : String) : Play String :=
  match Source.of expression with
  | .json inner => do
    Resolve.normalizeJson (String.ofList inner) (← resolve workflow (String.ofList inner))
  | source => Resolve.fromSource workflow expression source

theorem perform_resolve_of_fresh (fresh : s.kept? expression = none) :
    (resolve workflow expression).perform s = (do
      let value ← found workflow expression
      modifyContext (Context.remember expression value)
      return value : Play String).perform s := by
  rw [resolve, perform_get_bind, show Table.find? expression s.context.resolved = _ from fresh,
    found]
  dsimp only
  cases own : Source.of expression with
  | json inner =>
    split
    · next other same =>
      cases same
      simp only [bind_assoc]
    · next other => exact absurd rfl (other inner)
  | _ =>
    split
    · next same => cases same
    · rfl

/-- How resolving ends: with the value that was kept, with a fault, or with a value that is kept
from then on. -/
inductive Resolution (workflow : Mapping) (expression : String) (s : Session) :
    Except Fault String → Session → Prop
  | kept {value : String} (kept : s.kept? expression = some value) :
      Resolution workflow expression s (.ok value) s
  | failed {fault : Fault} {t : Session} (fresh : s.kept? expression = none)
      (failed : (found workflow expression).perform s = (.error fault, t)) :
      Resolution workflow expression s (.error fault) t
  | fresh {value : String} {t : Session} (fresh : s.kept? expression = none)
      (given : (found workflow expression).perform s = (.ok value, t)) :
      Resolution workflow expression s (.ok value)
        { t with context := t.context.remember expression value }

theorem resolution_of_perform
    (performed : (resolve workflow expression).perform s = (result, t)) :
    Resolution workflow expression s result t := by
  cases kept : s.kept? expression with
  | some value =>
    rw [perform_resolve_of_kept kept] at performed
    cases performed
    exact .kept kept
  | none =>
    rw [perform_resolve_of_fresh kept] at performed
    rcases perform_bind_cases performed with ⟨fault, failed, rfl⟩ | ⟨value, u, given, further⟩
    · exact .failed kept failed
    · cases further
      exact .fresh kept given

/-- What finding a value comes down to: an expression that is read as JSON is resolved by way of
the one inside it, and no other value is kept meanwhile. -/
theorem cases_of_found (given : (found workflow expression).perform s = (result, t)) :
    (∃ inner first u, Source.of expression = .json inner ∧
        (resolve workflow (String.ofList inner)).perform s = (first, u) ∧
        t.context.resolved = u.context.resolved) ∨
      ((∀ inner, Source.of expression ≠ .json inner) ∧
        t.context.resolved = s.context.resolved) := by
  unfold found at given
  split at given
  · next inner own =>
    refine .inl ?_
    rcases perform_bind_cases given with ⟨fault, failed, rfl⟩ | ⟨value, u, resolved, further⟩
    · exact ⟨inner, _, t, own, failed, rfl⟩
    · exact ⟨inner, _, u, own, resolved, (normalizeJson_tells ..).poses.resolved_eq further⟩
  · next other => exact .inr ⟨other, (fromSource_poses _ _ rfl).resolved_eq given⟩

/-! ### The way of an expression -/

/-- The expressions that are resolved on the way to the value of an expression, itself the last. -/
def chain (s : Session) (expression : String) : List String :=
  match s.kept? expression with
  | some _ => [expression]
  | none =>
    match h : Source.of expression with
    | .json inner =>
      have : inner.length < expression.length := Source.length_lt_of_json h
      chain s (String.ofList inner) ++ [expression]
    | _ => [expression]
termination_by expression.length
decreasing_by simpa using this

theorem chain_of_kept {value : String} (kept : s.kept? expression = some value) :
    chain s expression = [expression] := by
  rw [chain, kept]

theorem chain_of_json {inner : List Char} (fresh : s.kept? expression = none)
    (own : Source.of expression = .json inner) :
    chain s expression = chain s (String.ofList inner) ++ [expression] := by
  rw [chain, fresh]
  dsimp only
  split
  · next other same =>
    obtain rfl := Source.json.inj (own.symm.trans same)
    rfl
  · next other => exact absurd own (other inner)

theorem chain_of_other (other : ∀ inner, Source.of expression ≠ .json inner) :
    chain s expression = [expression] := by
  rw [chain]
  split
  · rfl
  · split
    · next inner own => exact absurd own (other inner)
    · rfl

theorem length_of_mem_chain {expression x : String} (member : x ∈ chain s expression) :
    x.length ≤ expression.length := by
  unfold chain at member
  split at member
  · exact Nat.le_of_eq (congrArg _ (List.mem_singleton.mp member))
  · split at member
    · next inner own =>
      have shorter := Source.length_lt_of_json own
      rcases List.mem_append.mp member with inside | last
      · have inside := length_of_mem_chain inside
        rw [String.length_ofList] at inside
        omega
      · exact Nat.le_of_eq (congrArg _ (List.mem_singleton.mp last))
    · exact Nat.le_of_eq (congrArg _ (List.mem_singleton.mp member))
termination_by expression.length
decreasing_by simpa using shorter

theorem chain_distinct (s : Session) (expression : String) :
    (chain s expression).Pairwise (· ≠ ·) := by
  unfold chain
  split
  · exact List.pairwise_singleton ..
  · split
    · next inner own =>
      have shorter := Source.length_lt_of_json own
      refine List.pairwise_append.mpr
        ⟨chain_distinct s (String.ofList inner), List.pairwise_singleton .., ?_⟩
      intro x inside y last same
      have length := length_of_mem_chain inside
      rw [same, List.mem_singleton.mp last, String.length_ofList] at length
      omega
    · exact List.pairwise_singleton ..
termination_by expression.length
decreasing_by simpa using shorter

/-! ### What is kept -/

/-- That a session came from another one by resolving these expressions: it keeps just the values
that they were given, beside those that were kept before. -/
structure Learned (workflow : Mapping) (expressions : List String) (s t : Session) : Prop where
  recalled : s.Recalled t
  kept : ∀ x ∈ expressions, ∀ value, ((resolve workflow x).perform s).1 = .ok value →
    t.kept? x = some value
  only : ∀ x value, t.kept? x = some value → s.kept? x = some value ∨
    x ∈ expressions ∧ ((resolve workflow x).perform s).1 = .ok value

namespace Learned

variable {expressions : List String}

theorem of_resolved (same : t.context.resolved = s.context.resolved) :
    Learned workflow [] s t where
  recalled := Session.recalled_of_resolved same
  kept := nofun
  only x value kept := by
    rw [Session.kept?, same] at kept
    exact .inl kept

theorem fail {fault : Fault} (learned : Learned workflow expressions s t)
    (failed : ((resolve workflow expression).perform s).1 = .error fault) :
    Learned workflow (expressions ++ [expression]) s t where
  recalled := learned.recalled
  kept x member value given := by
    rcases List.mem_append.mp member with inside | last
    · exact learned.kept x inside value given
    · rw [List.mem_singleton.mp last, failed] at given
      cases given
  only x value kept := (learned.only x value kept).imp_right (.imp_left (List.mem_append_left _))

theorem remember {value : String} (learned : Learned workflow expressions s t)
    (given : ((resolve workflow expression).perform s).1 = .ok value)
    (fresh : s.kept? expression = none) :
    Learned workflow (expressions ++ [expression]) s
      { t with context := t.context.remember expression value } where
  recalled x own kept := by
    rw [Session.kept?_remember, if_neg]
    · exact learned.recalled x own kept
    · rintro rfl
      rw [fresh] at kept
      cases kept
  kept x member own resolved := by
    rw [Session.kept?_remember]
    split
    · next same =>
      rw [same, given] at resolved
      exact congrArg some (Except.ok.inj resolved)
    · next other =>
      rcases List.mem_append.mp member with inside | last
      · exact learned.kept x inside own resolved
      · exact absurd (List.mem_singleton.mp last) other
  only x own kept := by
    rw [Session.kept?_remember] at kept
    split at kept
    · next same =>
      obtain rfl := Option.some.inj kept
      exact .inr ⟨List.mem_append_right _ (List.mem_singleton.mpr same), same ▸ given⟩
    · exact (learned.only x own kept).imp_right (.imp_left (List.mem_append_left _))

theorem congr {u : Session} (learned : Learned workflow expressions s t)
    (same : u.context.resolved = t.context.resolved) : Learned workflow expressions s u where
  recalled x value kept := by
    rw [Session.kept?, same]
    exact learned.recalled x value kept
  kept x member value given := by
    rw [Session.kept?, same]
    exact learned.kept x member value given
  only x value kept := by
    rw [Session.kept?, same] at kept
    exact learned.only x value kept

end Learned

/-- **Kept values.** Resolving an expression keeps the values that the expressions on its way come
to, and no others; what was kept before stays. -/
theorem learned_of_resolve {expression : String} {result : Except Fault String} {t : Session}
    (performed : (resolve workflow expression).perform s = (result, t)) :
    Learned workflow (chain s expression) s t := by
  have first := congrArg Prod.fst performed
  -- Only reading JSON resolves another expression first, which is shorter.
  have during {r : Except Fault String} {u : Session} (fresh : s.kept? expression = none)
      (given : (found workflow expression).perform s = (r, u)) :
      ∃ before, chain s expression = before ++ [expression] ∧ Learned workflow before s u := by
    rcases cases_of_found given with ⟨inner, inside, v, own, resolved, same⟩ | ⟨other, same⟩
    · have shorter := Source.length_lt_of_json own
      exact ⟨_, chain_of_json fresh own, (learned_of_resolve resolved).congr same⟩
    · exact ⟨[], chain_of_other other, .of_resolved same⟩
  cases resolution_of_perform performed with
  | kept kept =>
    rw [chain_of_kept kept]
    refine { recalled := .refl s, kept := ?_, only := fun _ _ kept => .inl kept }
    intro x member value given
    rw [List.mem_singleton.mp member] at given ⊢
    rw [first] at given
    exact kept.trans (congrArg some (Except.ok.inj given))
  | failed fresh failed =>
    obtain ⟨before, way, learned⟩ := during fresh failed
    rw [way]
    exact learned.fail first
  | fresh fresh given =>
    obtain ⟨before, way, learned⟩ := during fresh given
    rw [way]
    exact learned.remember first fresh
termination_by expression.length
decreasing_by simpa using shorter

end Rehearsal
