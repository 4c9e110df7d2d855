import Rehearsal.Condition
import Rehearsal.Proofs.Expression.Leaves
import Rehearsal.Proofs.Play.Supply

/-! When the constants of an expression and the values of its references are sound, so is its value,
and its evaluation ends only with a fault that makes a condition false or with a flaw of these
values. -/

namespace Rehearsal

/-- Whether a value has only flaws of a kind, where not counting as a number is a flaw as well. -/
structure Value.Sound (Flaw : Unfit → Prop) (v : Value) : Prop where
  within : v.Within Flaw
  counts : ∀ i, v = .int i → Double.ofInt? i = none → Flaw .integerOutOfRange

namespace Value

variable {Flaw : Unfit → Prop} {u : Unfit}

theorem Sound.bool (b : Bool) : (Value.bool b).Sound Flaw := ⟨.bool b, fun _ same => nomatch same⟩

theorem Sound.str (s : String) : (Value.str s).Sound Flaw := ⟨.str s, fun _ same => nomatch same⟩

theorem Sound.null : Value.null.Sound Flaw := ⟨.null, fun _ same => nomatch same⟩

theorem Sound.constant {s : Scalar} (modest : s.Modest) : (Value.scalar s).Sound Flaw := by
  constructor
  · intro u flaw
    rw [hasFlaw, modest.flawless] at flaw
    cases flaw
  · intro i same vast
    cases same
    have counts := modest.counts i rfl
    rw [vast] at counts
    cases counts

theorem truthy_eq_error {v : Value} (failed : v.truthy = .error u) :
    u = .integerOutOfRange ∧ ∃ i, v = .int i ∧ Double.ofInt? i = none := by
  unfold truthy at failed
  split at failed
  · cases failed
  · cases failed
  · next i =>
    split at failed
    · cases failed
    · split at failed
      · cases failed
      · next vast =>
        cases failed
        exact ⟨rfl, i, rfl, vast⟩
  · cases failed
  · cases failed
  · cases failed

theorem Sound.truthy {v : Value} (sound : v.Sound Flaw) (failed : v.truthy = .error u) :
    Flaw u := by
  obtain ⟨rfl, i, same, vast⟩ := truthy_eq_error failed
  exact sound.counts i same vast

theorem Sound.number {v : Value} (sound : v.Sound Flaw) (failed : v.number = .error u) :
    Flaw u := by
  unfold Value.number at failed
  split at failed
  · cases failed
  · cases failed
  · next i =>
    cases counted : Double.ofInt? i with
    | some d =>
      rw [counted] at failed
      cases failed
    | none =>
      rw [counted] at failed
      cases failed
      exact sound.counts i rfl counted
  · cases failed
  · split at failed
    · cases failed
    · cases failed
  · cases failed

end Value

variable {Flaw : Unfit → Prop} {u : Unfit}

theorem sound_of_numbers {α : Type} {v w : Value} (left : v.Sound Flaw) (right : w.Sound Flaw)
    {f : Double → Double → α}
    (failed : (do let m ← v.number; let n ← w.number; return f m n) = Except.error u) : Flaw u := by
  rcases error_of_bind failed with first | ⟨m, -, failed⟩
  · exact left.number first
  · rcases error_of_bind failed with second | ⟨n, -, failed⟩
    · exact right.number second
    · cases failed

namespace Operand

variable {left right : Operand}

theorem looseEq_sound (first : left.value.Sound Flaw) (second : right.value.Sound Flaw)
    (failed : left.looseEq right = .error u) : Flaw u := by
  unfold looseEq at failed
  split at failed
  · cases failed
  · cases failed
  · split at failed
    · cases failed
    · exact sound_of_numbers first second failed

end Operand

theorem Order.holds_sound {v w : Value} (o : Order) (first : v.Sound Flaw)
    (second : w.Sound Flaw) (failed : o.holds v w = .error u) : Flaw u := by
  unfold Order.holds at failed
  split at failed
  · cases failed
  · exact sound_of_numbers first second failed

theorem Operator.compare_sound {left right : Operand} (op : Operator)
    (first : left.value.Sound Flaw) (second : right.value.Sound Flaw)
    (failed : op.compare left right = .error u) : Flaw u := by
  unfold Operator.compare at failed
  split at failed
  · cases compared : left.looseEq right with
    | ok b =>
      rw [compared] at failed
      cases failed
    | error v =>
      rw [compared] at failed
      cases failed
      exact Operand.looseEq_sound first second compared
  · exact Order.holds_sound _ first second failed
  · exact Operand.looseEq_sound first second failed

def Fault.Inner (Flaw : Unfit → Prop) (fault : Fault) : Prop :=
  fault.failsCondition = true ∨ ∃ u, fault = .unfit u ∧ Flaw u

theorem Fault.Inner.flaw (own : Flaw u) : Fault.Inner Flaw (.unfit u) := .inr ⟨u, rfl, own⟩

/-! ### Functions -/

namespace Functions

abbrev Sound (Flaw : Unfit → Prop) (outcome : Except Fault Operand) : Prop :=
  Ends (Fault.Inner Flaw) (fun operand => operand.value.Sound Flaw) outcome

theorem constant_sound (b : Bool) (operands : List Operand) :
    Sound Flaw (constant b operands) := by
  unfold constant
  split
  · exact Value.Sound.bool b
  · exact .inl rfl

theorem stringTest_sound (test : List Char → List Char → Bool) (operands : List Operand) :
    Sound Flaw (stringTest test operands) := by
  unfold stringTest
  split
  · split
    · exact Value.Sound.bool _
    · exact Value.Sound.bool _
  · exact Value.Sound.bool _
  · exact Value.Sound.bool _
  · exact .inl rfl

theorem fromJson_sound (vast : Flaw .integerOutOfRange) {operands : List Operand}
    (sound : ∀ operand ∈ operands, operand.value.Sound Flaw) :
    Sound Flaw (fromJson operands) := by
  unfold fromJson
  split
  · split
    · split
      · next value read => exact ⟨Json.parse_within read, fun _ _ _ => vast⟩
      · exact .inl rfl
    · exact sound _ List.mem_cons_self
  · exact .inl rfl

theorem toJson_sound {operands : List Operand}
    (sound : ∀ operand ∈ operands, operand.value.Sound Flaw) : Sound Flaw (toJson operands) := by
  unfold toJson
  split
  · next operand =>
    cases written : Json.text .airy operand.value with
    | ok text => exact Value.Sound.str text
    | error u =>
      have own := (sound _ List.mem_cons_self).within u (Json.hasFlaw_of_text written)
      exact Fault.Inner.flaw own
  · exact .inl rfl

theorem builtin_sound {name : String} {function : List Operand → Except Fault Operand}
    (found : builtin name = some function) (vast : name = "fromJSON" → Flaw .integerOutOfRange)
    {operands : List Operand} (sound : ∀ operand ∈ operands, operand.value.Sound Flaw) :
    Sound Flaw (function operands) := by
  unfold builtin at found
  split at found
  · cases found
    exact constant_sound ..
  · cases found
    exact constant_sound ..
  · cases found
    exact constant_sound ..
  · cases found
    exact constant_sound ..
  · cases found
    exact stringTest_sound ..
  · cases found
    exact stringTest_sound ..
  · cases found
    exact stringTest_sound ..
  · cases found
    exact fromJson_sound (vast rfl) sound
  · cases found
    exact toJson_sound sound
  · cases found

end Functions

/-! ### Expressions -/

namespace Expr

variable {Fit : Session → Prop} {lookup : String → Evaluation Session Operand}

abbrev Evaluates (Fit : Session → Prop) (Flaw : Unfit → Prop) (play : Play Operand) : Prop :=
  Yields Fit (Fault.Inner Flaw) (fun operand => operand.value.Sound Flaw) play

theorem adopt_evaluates {outcome : Except Fault Operand} (sound : Functions.Sound Flaw outcome) :
    Evaluates Fit Flaw (Evaluation.adopt outcome) := by
  cases outcome with
  | ok operand => exact .pure sound
  | error fault => exact .throw sound

theorem bind_adopt_evaluates {outcome : Except Unfit Bool} {next : Bool → Play Operand}
    (failed : ∀ u, outcome = .error u → Flaw u) (rest : ∀ b, Evaluates Fit Flaw (next b)) :
    Evaluates Fit Flaw ((Evaluation.adopt (orUnfit outcome) : Play Bool) >>= next) := by
  cases outcome with
  | ok b => exact ⟨fun s fit => (rest b).outcome s fit⟩
  | error u => exact ⟨fun s fit => ⟨fit, .flaw (failed u rfl)⟩⟩

mutual

theorem evaluate_evaluates (found : ∀ path, Evaluates Fit Flaw (lookup path)) :
    ∀ {e : Expr}, e.Modest → (e.calls "fromJSON" = true → Flaw .integerOutOfRange) →
      Evaluates Fit Flaw (e.evaluate Functions.builtin lookup)
  | .literal value, modest, _ => .pure (.constant modest)
  | .reference path, _, _ => found path
  | .call name arguments, modest, vast => by
    rw [calls, Bool.or_eq_true, beq_iff_eq] at vast
    unfold evaluate
    split
    · exact .throw (.inl rfl)
    · next function known =>
      exact .bind (evaluateAll_evaluates found modest fun some => vast (.inr some))
        fun operands sound =>
          adopt_evaluates (Functions.builtin_sound known (fun same => vast (.inl same)) sound)
  | .not operand, modest, vast => by
    unfold evaluate
    exact .bind (evaluate_evaluates found modest vast) fun value sound =>
      bind_adopt_evaluates (fun u => sound.truthy) fun b => .pure (.bool _)
  | .binary op left right, modest, vast => by
    rw [calls, Bool.or_eq_true] at vast
    have first := evaluate_evaluates found modest.1 fun some => vast (.inl some)
    have second := evaluate_evaluates found modest.2 fun some => vast (.inr some)
    cases op with
    | and =>
      unfold evaluate
      refine .bind first fun value sound => bind_adopt_evaluates (fun u => sound.truthy) fun b => ?_
      cases b with
      | true => exact second
      | false => exact .pure sound
    | or =>
      unfold evaluate
      refine .bind first fun value sound => bind_adopt_evaluates (fun u => sound.truthy) fun b => ?_
      cases b with
      | true => exact .pure sound
      | false => exact second
    | _ =>
      unfold evaluate
      exact .bind first fun value sound => .bind second fun other own =>
        bind_adopt_evaluates (fun u => Operator.compare_sound _ sound own) fun b => .pure (.bool b)

theorem evaluateAll_evaluates (found : ∀ path, Evaluates Fit Flaw (lookup path)) :
    ∀ {es : List Expr}, AllModest es → (someCalls "fromJSON" es = true → Flaw .integerOutOfRange) →
      Yields Fit (Fault.Inner Flaw)
        (fun operands => ∀ operand ∈ operands, operand.value.Sound Flaw)
        (evaluateAll Functions.builtin lookup es : Play (List Operand))
  | [], _, _ => .pure (by simp)
  | e :: es, modest, vast => by
    rw [someCalls, Bool.or_eq_true] at vast
    unfold evaluateAll
    exact .bind (evaluate_evaluates found modest.1 fun some => vast (.inl some)) fun value sound =>
      .bind (evaluateAll_evaluates found modest.2 fun some => vast (.inr some)) fun values others =>
        .pure (List.forall_mem_cons.mpr ⟨sound, others⟩)

end

end Expr
end Rehearsal
