import Rehearsal.Expression.Evaluation

/-! Evaluating an expression looks up references in the order in which they stand in it, and leaves
some out only behind an operator that decides without them: `evaluate_watches`. -/

namespace Rehearsal

def Evaluation.runFrom {σ α : Type} (evaluation : Evaluation σ α) (s : σ) : Except Fault α × σ :=
  StateT.run (ExceptT.run evaluation) s

theorem Evaluation.runFrom_bind {σ α β : Type} (evaluation : Evaluation σ α)
    (next : α → Evaluation σ β) (s : σ) :
    (evaluation >>= next).runFrom s = match evaluation.runFrom s with
      | (.ok a, t) => (next a).runFrom t
      | (.error fault, t) => (.error fault, t) := by
  unfold runFrom ExceptT.run StateT.run
  simp only [bind, ExceptT.bind, ExceptT.mk, StateT.bind, ExceptT.bindCont]
  cases evaluation s with
  | mk result t => cases result <;> rfl

/-- A reference that was looked up: in which state, and what came of it. -/
structure Visit (σ : Type) where
  path : String
  start : σ
  outcome : Except Fault Operand

/-- The look-up that also writes down what it does, after what was written down before. -/
def Evaluation.watched {σ : Type} (lookup : String → Evaluation σ Operand) (path : String) :
    Evaluation (σ × List (Visit σ)) Operand :=
  ExceptT.mk fun (s, seen) =>
    let (result, t) := (lookup path).runFrom s
    (result, (t, seen ++ [⟨path, s, result⟩]))

/-- That these visits were made one after the other between two states. -/
inductive Visits {σ : Type} (lookup : String → Evaluation σ Operand) :
    σ → List (Visit σ) → σ → Prop
  | none {s : σ} : Visits lookup s [] s
  | visit {s t u : σ} {path : String} {result : Except Fault Operand} {rest : List (Visit σ)}
      (looked : (lookup path).runFrom s = (result, t)) (others : Visits lookup t rest u) :
      Visits lookup s (⟨path, s, result⟩ :: rest) u

theorem Visits.append {σ : Type} {lookup : String → Evaluation σ Operand} {s t u : σ}
    {first rest : List (Visit σ)} (before : Visits lookup s first t)
    (after : Visits lookup t rest u) : Visits lookup s (first ++ rest) u := by
  induction before with
  | none => exact after
  | visit looked _ ih => exact .visit looked (ih after)

theorem Visits.keeps {σ : Type} {lookup : String → Evaluation σ Operand} {Fit : σ → Prop}
    {s t : σ} {visits : List (Visit σ)} (made : Visits lookup s visits t)
    (each : ∀ visit ∈ visits, ∀ u, Fit u → Fit ((lookup visit.path).runFrom u).2) (start : Fit s) :
    (∀ visit ∈ visits, Fit visit.start ∧
      visit.outcome = ((lookup visit.path).runFrom visit.start).1) ∧ Fit t := by
  induction made with
  | none => exact ⟨nofun, start⟩
  | visit looked _ ih =>
    obtain ⟨own, others⟩ := List.forall_mem_cons.mp each
    have next := own _ start
    rw [looked] at next
    obtain ⟨later, last⟩ := ih others next
    exact ⟨List.forall_mem_cons.mpr ⟨⟨start, by rw [looked]⟩, later⟩, last⟩

namespace Expr

mutual

/-- Whether an expression has no operator that may leave out its right operand. -/
def isStrict : Expr → Bool
  | literal _ => true
  | reference _ => true
  | call _ arguments => allStrict arguments
  | not operand => isStrict operand
  | binary op left right => op != .and && op != .or && isStrict left && isStrict right

def allStrict : List Expr → Bool
  | [] => true
  | e :: es => isStrict e && allStrict es

end

end Expr

/-! ### Watching an evaluation -/

/-- That an evaluation with a watched look-up does what the plain one does and makes visits to some
of these paths, in order; to all of them if `Whole` holds and it comes to a result. -/
structure Watches {σ α : Type} (lookup : String → Evaluation σ Operand) (paths : List String)
    (Whole : Prop) (plain : Evaluation σ α) (watched : Evaluation (σ × List (Visit σ)) α) :
    Prop where
  follows : ∀ s seen, ∃ visits,
    watched.runFrom (s, seen) = ((plain.runFrom s).1, ((plain.runFrom s).2, seen ++ visits)) ∧
    Visits lookup s visits (plain.runFrom s).2 ∧
    (visits.map Visit.path).Sublist paths ∧
    (Whole → ∀ a, (plain.runFrom s).1 = .ok a → visits.map Visit.path = paths)

namespace Watches

variable {σ α β : Type} {lookup : String → Evaluation σ Operand} {paths others : List String}
  {Whole : Prop} {plain : Evaluation σ α} {watched : Evaluation (σ × List (Visit σ)) α}

theorem pure (a : α) : Watches lookup [] Whole (Pure.pure a) (Pure.pure a) := by
  refine ⟨fun s seen => ⟨[], ?_, .none, .slnil, fun _ _ _ => rfl⟩⟩
  rw [List.append_nil]
  rfl

theorem throw (fault : Fault) (paths : List String) :
    Watches lookup paths Whole (MonadExcept.throw fault : Evaluation σ α)
      (MonadExcept.throw fault) := by
  refine ⟨fun s seen => ⟨[], ?_, .none, List.nil_sublist _, fun _ _ ended => ?_⟩⟩
  · rw [List.append_nil]
    rfl
  · cases ended

theorem adopt (result : Except Fault α) :
    Watches lookup [] Whole (Evaluation.adopt result) (Evaluation.adopt result) := by
  cases result with
  | ok a => exact pure a
  | error fault => exact throw fault []

theorem reference (path : String) :
    Watches lookup [path] Whole (lookup path) (Evaluation.watched lookup path) :=
  ⟨fun s _ => ⟨[⟨path, s, ((lookup path).runFrom s).1⟩], rfl, .visit rfl .none, .refl _,
    fun _ _ _ => rfl⟩⟩

theorem bind {next : α → Evaluation σ β} {further : α → Evaluation (σ × List (Visit σ)) β}
    (first : Watches lookup paths Whole plain watched)
    (rest : ∀ a, Watches lookup others Whole (next a) (further a)) :
    Watches lookup (paths ++ others) Whole (plain >>= next) (watched >>= further) := by
  constructor
  intro s seen
  obtain ⟨visits, same, made, some, whole⟩ := first.follows s seen
  rw [Evaluation.runFrom_bind, Evaluation.runFrom_bind, same]
  cases ended : plain.runFrom s with
  | mk result t =>
    rw [ended] at made whole
    cases result with
    | error fault =>
      exact ⟨visits, rfl, made, some.trans (List.sublist_append_left ..), nofun⟩
    | ok a =>
      obtain ⟨more, again, later, others, all⟩ := (rest a).follows t (seen ++ visits)
      refine ⟨visits ++ more, ?_, made.append later, ?_, fun holds b given => ?_⟩
      · rw [← List.append_assoc]
        exact again
      · rw [List.map_append]
        exact some.append others
      · rw [List.map_append, whole holds a rfl, all holds b given]

theorem bind_idle {next : α → Evaluation σ β} {further : α → Evaluation (σ × List (Visit σ)) β}
    (first : Watches lookup paths Whole plain watched)
    (rest : ∀ a, Watches lookup [] Whole (next a) (further a)) :
    Watches lookup paths Whole (plain >>= next) (watched >>= further) := by
  rw [← List.append_nil paths]
  exact first.bind rest

theorem bind_adopt {result : Except Fault α} {next : α → Evaluation σ β}
    {further : α → Evaluation (σ × List (Visit σ)) β}
    (rest : ∀ a, Watches lookup others Whole (next a) (further a)) :
    Watches lookup others Whole (Evaluation.adopt result >>= next)
      (Evaluation.adopt result >>= further) := (adopt result).bind rest

theorem mono {Fewer : Prop} (watches : Watches lookup paths Whole plain watched)
    (fewer : Fewer → Whole) : Watches lookup paths Fewer plain watched := by
  refine ⟨fun s seen => ?_⟩
  obtain ⟨visits, same, made, some, whole⟩ := watches.follows s seen
  exact ⟨visits, same, made, some, fun holds => whole (fewer holds)⟩

theorem leave (a : α) (paths : List String) :
    Watches lookup paths False (Pure.pure a) (Pure.pure a) := by
  refine ⟨fun s seen => ⟨[], ?_, .none, List.nil_sublist _, False.elim⟩⟩
  rw [List.append_nil]
  rfl

end Watches

namespace Expr

variable {σ : Type} {functions : Functions} {lookup : String → Evaluation σ Operand}

mutual

theorem evaluate_watches : ∀ e : Expr,
    Watches lookup e.references (e.isStrict = true) (e.evaluate functions lookup)
      (e.evaluate functions (Evaluation.watched lookup))
  | .literal value => .pure _
  | .reference path => .reference path
  | .call name arguments => by
    unfold evaluate references isStrict
    split
    · exact .throw _ _
    · exact (evaluateAll_watches arguments).bind_idle fun _ => .adopt _
  | .not operand => by
    unfold evaluate references isStrict
    exact (evaluate_watches operand).bind_idle fun _ => .bind_adopt fun _ => .pure _
  | .binary op left right => by
    have first := evaluate_watches left
    have second := evaluate_watches right
    have both (strict : isStrict (.binary op left right) = true) :
        left.isStrict = true ∧ right.isStrict = true := by
      rw [isStrict, Bool.and_eq_true, Bool.and_eq_true] at strict
      exact ⟨strict.1.2, strict.2⟩
    -- An operator that may do without its right operand is not strict.
    cases op with
    | and =>
      unfold evaluate references
      have never : isStrict (.binary .and left right) = true → False := by simp [isStrict]
      refine ((first.mono False.elim).bind fun value => .bind_adopt fun holds => ?_).mono never
      cases holds with
      | true => exact second.mono False.elim
      | false => exact .leave value _
    | or =>
      unfold evaluate references
      have never : isStrict (.binary .or left right) = true → False := by simp [isStrict]
      refine ((first.mono False.elim).bind fun value => .bind_adopt fun holds => ?_).mono never
      cases holds with
      | true => exact .leave value _
      | false => exact second.mono False.elim
    | _ =>
      unfold evaluate references
      exact (first.mono fun strict => (both strict).1).bind fun _ =>
        (second.mono fun strict => (both strict).2).bind_idle fun _ => .bind_adopt fun _ => .pure _

theorem evaluateAll_watches : ∀ es : List Expr,
    Watches lookup (referencesOfAll es) (allStrict es = true) (evaluateAll functions lookup es)
      (evaluateAll functions (Evaluation.watched lookup) es)
  | [] => .pure []
  | e :: es => by
    have both (strict : allStrict (e :: es) = true) :
        e.isStrict = true ∧ allStrict es = true := by
      simpa [allStrict] using strict
    unfold evaluateAll referencesOfAll
    exact ((evaluate_watches e).mono fun strict => (both strict).1).bind fun _ =>
      ((evaluateAll_watches es).mono fun strict => (both strict).2).bind_idle fun _ => .pure _

end

end Expr
end Rehearsal
