import Rehearsal.Proofs.Job.Alike
import Rehearsal.Proofs.Json.Parsed
import Rehearsal.Proofs.Play.Resolving
import Rehearsal.Proofs.Variable.Decoded

/-! An expression may have a value for which the user need not be asked, `known?`: one that it has
kept, a variable of the workflow, an output on record, or the JSON of another known value. Resolving
the expression comes to that value, and all that is known stays the same (`resolve_of_known`). So
values are found alike in sessions in which the same is known (`tallies_of_sameKnown`), whatever has
been kept of it. -/

namespace Rehearsal

open Play

variable {workflow : Mapping} {expression value : String} {c : Context} {s t u : Session}
  {Allowed : String → Prop}

/-! ### Known values -/

def compactJson (text : String) : String :=
  match Json.parse text with
  | .error _ => text
  | .ok v => (Json.text .compact v).toOption.getD text

theorem perform_normalizeJson_compact (inner text : String) (s : Session) :
    ∃ t, (Resolve.normalizeJson inner text).perform s = (.ok (compactJson text), t) ∧
      s.Noted t := by
  rw [compactJson]
  cases parsed : Json.parse text with
  | error refusal =>
    obtain ⟨t, told, noted⟩ := Session.Noted.log .info
      ("Resolved " ++ ("fromJSON(" ++ inner ++ ")") ++ " = \"" ++ text ++ "\"") s
    refine ⟨t, ?_, noted⟩
    rw [Resolve.normalizeJson, parsed]
    exact (perform_bind_ok told).trans rfl
  | ok v =>
    obtain ⟨compact, written⟩ := Json.exists_text_of_within (Json.parse_within parsed) .compact
    dsimp only
    rw [written]
    exact perform_normalizeJson parsed written inner s

def Source.known? (workflow : Mapping) (c : Context) : Source → Option String
  | .environment name =>
    match environmentValue? workflow name with
    | .ok (some value) => value.expressionText.toOption
    | _ => none
  | .output job name => c.jobOutput? (.str job) name
  | _ => none

/-- The value of an expression for which the user need not be asked. -/
def known? (workflow : Mapping) (c : Context) (expression : String) : Option String :=
  match Table.find? expression c.resolved with
  | some value => some value
  | none =>
    match h : Source.of expression with
    | .json inner =>
      have : inner.length < expression.length := Source.length_lt_of_json h
      (known? workflow c (String.ofList inner)).map compactJson
    | source => source.known? workflow c
termination_by expression.length
decreasing_by simpa using this

theorem known?_of_kept (kept : Table.find? expression c.resolved = some value) :
    known? workflow c expression = some value := by
  rw [known?, kept]

theorem fresh_of_unknown (unknown : known? workflow c expression = none) :
    Table.find? expression c.resolved = none := by
  cases kept : Table.find? expression c.resolved with
  | none => rfl
  | some own =>
    rw [known?_of_kept kept] at unknown
    cases unknown

theorem known?_of_json {inner : List Char} (fresh : Table.find? expression c.resolved = none)
    (own : Source.of expression = .json inner) :
    known? workflow c expression = (known? workflow c (String.ofList inner)).map compactJson := by
  rw [known?, fresh]
  dsimp only
  split
  · next other same =>
    obtain rfl := Source.json.inj (own.symm.trans same)
    rfl
  · next other => exact absurd own (other inner)

theorem inside_of_unknown {inner : List Char} (unknown : known? workflow c expression = none)
    (own : Source.of expression = .json inner) :
    known? workflow c (String.ofList inner) = none := by
  rw [known?_of_json (fresh_of_unknown unknown) own] at unknown
  exact Option.map_eq_none_iff.mp unknown

theorem known?_of_other (fresh : Table.find? expression c.resolved = none)
    (other : ∀ inner, Source.of expression ≠ .json inner) :
    known? workflow c expression = (Source.of expression).known? workflow c := by
  rw [known?, fresh]
  dsimp only
  split
  · next inner own => exact absurd own (other inner)
  · rfl

theorem Source.known?_congr {d : Context} (jobs : d.jobs = c.jobs) (source : Source) :
    source.known? workflow d = source.known? workflow c := by
  cases source with
  | output job name => exact Context.jobOutput?_congr jobs (.str job) name
  | _ => rfl

theorem known?_ext {d : Context} (jobs : d.jobs = c.jobs)
    (each : ∀ other, Table.find? other d.resolved = Table.find? other c.resolved ∨
      known? workflow d other = known? workflow c other) (expression : String) :
    known? workflow d expression = known? workflow c expression := by
  rcases each expression with same | known
  · cases kept : Table.find? expression c.resolved with
    | some value => rw [known?_of_kept kept, known?_of_kept (same.trans kept)]
    | none =>
      have fresh := same.trans kept
      by_cases json : ∃ inner, Source.of expression = .json inner
      · obtain ⟨inner, own⟩ := json
        have shorter := Source.length_lt_of_json own
        rw [known?_of_json kept own, known?_of_json fresh own, known?_ext jobs each]
      · have other := not_exists.mp json
        rw [known?_of_other kept other, known?_of_other fresh other, Source.known?_congr jobs]
  · exact known
termination_by expression.length
decreasing_by simpa using shorter

theorem known?_congr {d : Context} (resolved : d.resolved = c.resolved) (jobs : d.jobs = c.jobs)
    (expression : String) : known? workflow d expression = known? workflow c expression :=
  known?_ext jobs (fun other => .inl (by rw [resolved])) expression

theorem known?_remember_of_known (known : known? workflow c expression = some value)
    (other : String) :
    known? workflow (c.remember expression value) other = known? workflow c other := by
  have jobs : (c.remember expression value).jobs = c.jobs := rfl
  refine known?_ext jobs (fun other => ?_) other
  by_cases same : other = expression
  · subst same
    exact .inr (by rw [known, known?_of_kept (Table.find?_put_self ..)])
  · exact .inl (Table.find?_put_of_ne same ..)

def through? (expression value other : String) : Option String :=
  if other = expression then some value
  else match h : Source.of other with
    | .json inner =>
      have : inner.length < other.length := Source.length_lt_of_json h
      (through? expression value (String.ofList inner)).map compactJson
    | _ => none
termination_by other.length
decreasing_by simpa using this

theorem through?_of_json {other : String} (different : other ≠ expression) {inner : List Char}
    (own : Source.of other = .json inner) :
    through? expression value other =
      (through? expression value (String.ofList inner)).map compactJson := by
  rw [through?, if_neg different]
  split
  · next further same =>
    obtain rfl := Source.json.inj (own.symm.trans same)
    rfl
  · next none => exact absurd own (none inner)

theorem through?_of_other {other : String} (different : other ≠ expression)
    (none : ∀ inner, Source.of other ≠ .json inner) : through? expression value other = .none := by
  rw [through?, if_neg different]
  split
  · next inner own => exact absurd own (none inner)
  · rfl

theorem known?_remember_of_unknown (unknown : known? workflow c expression = none)
    (other : String) :
    known? workflow (c.remember expression value) other =
      (known? workflow c other).or (through? expression value other) := by
  by_cases same : other = expression
  · subst same
    rw [unknown, known?_of_kept (Table.find?_put_self ..), through?, if_pos rfl]
    rfl
  · have kept' : Table.find? other (c.remember expression value).resolved =
        Table.find? other c.resolved := Table.find?_put_of_ne same ..
    cases kept : Table.find? other c.resolved with
    | some own =>
      rw [known?_of_kept kept, known?_of_kept (kept'.trans kept)]
      rfl
    | none =>
      have fresh := kept'.trans kept
      by_cases json : ∃ inner, Source.of other = .json inner
      · obtain ⟨inner, own⟩ := json
        have shorter := Source.length_lt_of_json own
        rw [known?_of_json kept own, known?_of_json fresh own, through?_of_json same own,
          known?_remember_of_unknown unknown, Option.map_or]
      · have none := not_exists.mp json
        have jobs : (c.remember expression value).jobs = c.jobs := rfl
        rw [known?_of_other kept none, known?_of_other fresh none, through?_of_other same none,
          Source.known?_congr jobs, Option.or_none]
termination_by other.length
decreasing_by simpa using shorter

/-! ### Sessions in which the same is known -/

/-- That the same is known of expressions of some sort, the answers to come and the outputs on
record being the same. -/
structure Session.SameKnown (workflow : Mapping) (Allowed : String → Prop) (s t : Session) :
    Prop extends s.SameOutputs t where
  answers : t.answers = s.answers
  known : ∀ expression, Allowed expression →
    known? workflow t.context expression = known? workflow s.context expression

namespace Session.SameKnown

theorem of_noted (noted : s.Noted t) : s.SameKnown workflow Allowed t := by
  obtain ⟨records, -, rfl⟩ := noted
  exact ⟨⟨rfl, rfl⟩, rfl, fun _ _ => rfl⟩

theorem trans (first : s.SameKnown workflow Allowed t) (rest : t.SameKnown workflow Allowed u) :
    s.SameKnown workflow Allowed u where
  toSameOutputs := first.toSameOutputs.trans rest.toSameOutputs
  answers := rest.answers.trans first.answers
  known _ allowed := (rest.known _ allowed).trans (first.known _ allowed)

theorem follow {s' t' : Session} (related : s.SameKnown workflow Allowed t)
    (first : s.SameKnown workflow (fun _ => True) s')
    (second : t.SameKnown workflow (fun _ => True) t') : s'.SameKnown workflow Allowed t' where
  jobs := (second.jobs.trans related.jobs).trans first.jobs.symm
  steps := (second.steps.trans related.steps).trans first.steps.symm
  answers := (second.answers.trans related.answers).trans first.answers.symm
  known _ allowed := by
    rw [second.known _ trivial, related.known _ allowed, first.known _ trivial]

theorem of_resolved (outputs : s.SameOutputs t) (answers : t.answers = s.answers)
    (resolved : t.context.resolved = s.context.resolved) : s.SameKnown workflow Allowed t where
  toSameOutputs := outputs
  answers := answers
  known other _ := known?_congr resolved outputs.jobs other

theorem remember (same : s.SameKnown workflow Allowed t)
    (known : known? workflow s.context expression = some value)
    (again : known? workflow t.context expression = some value) :
    Session.SameKnown workflow Allowed
      { s with context := s.context.remember expression value }
      { t with context := t.context.remember expression value } where
  jobs := same.jobs
  steps := same.steps
  answers := same.answers
  known other allowed := by
    show known? workflow (t.context.remember expression value) other =
      known? workflow (s.context.remember expression value) other
    rw [known?_remember_of_known known, known?_remember_of_known again, same.known other allowed]

theorem learn (same : s.SameKnown workflow Allowed t)
    (unknown : known? workflow s.context expression = none)
    (again : known? workflow t.context expression = none) :
    Session.SameKnown workflow Allowed
      { s with context := s.context.remember expression value }
      { t with context := t.context.remember expression value } where
  jobs := same.jobs
  steps := same.steps
  answers := same.answers
  known other allowed := by
    show known? workflow (t.context.remember expression value) other =
      known? workflow (s.context.remember expression value) other
    rw [known?_remember_of_unknown unknown, known?_remember_of_unknown again,
      same.known other allowed]

end Session.SameKnown

theorem agrees_of_sameKnown (job : Option Scalar) :
    Agrees job (Session.SameKnown workflow Allowed) where
  jobs same := same.jobs
  answers same := same.answers
  steps same owner _ step name := same.stepOutput? owner step name
  deed := by
    intro s t d seeks same
    cases d with
    | log level message =>
      rw [Deed.after_log, Deed.after_log]
      exact ⟨⟨same.jobs, same.steps⟩, same.answers, same.known⟩
    | ask question =>
      refine ⟨⟨same.jobs, same.steps⟩, ?_, same.known⟩
      show (t.answers.next question.text).2 = (s.answers.next question.text).2
      rw [same.answers]
    | echo | register => exact ⟨⟨same.jobs, same.steps⟩, same.answers, same.known⟩
    | _ => exact seeks.elim

/-! ### Resolving -/

theorem perform_announced_noted (expression value : String) (s : Session) :
    ∃ t, (Resolve.announced expression value).perform s = (.ok value, t) ∧ s.Noted t := by
  obtain ⟨t, told, noted⟩ := Session.Noted.log .info
    ("Resolved " ++ expression ++ " = \"" ++ value ++ "\"") s
  exact ⟨t, (perform_bind_ok told).trans rfl, noted⟩

theorem fromSource_of_known {source : Source}
    (known : source.known? workflow s.context = some value) (expression : String) :
    ∃ t, (Resolve.fromSource workflow expression source).perform s = (.ok value, t) ∧
      s.Noted t := by
  cases source with
  | environment name =>
    rw [Source.known?] at known
    rw [Resolve.fromSource]
    cases searched : environmentValue? workflow name with
    | error fault =>
      rw [searched] at known
      cases known
    | ok found =>
      rw [searched] at known
      cases found with
      | none => cases known
      | some v =>
        dsimp only at known
        cases told : v.expressionText with
        | error u =>
          rw [told] at known
          cases known
        | ok text =>
          rw [told] at known
          obtain rfl : text = value := Option.some.inj known
          obtain ⟨t, announced, noted⟩ := perform_announced_noted expression text s
          refine ⟨t, ?_, noted⟩
          show ((fit v.expressionText : Play String) >>=
            Resolve.announced expression).perform s = _
          rw [told]
          exact announced
  | output job name =>
    have recorded : s.context.jobOutput? (.str job) name = some value := known
    obtain ⟨t, told, noted⟩ := Session.Noted.log .info
      ("Using job output: " ++ job ++ "." ++ name ++ " = \"" ++ value ++ "\"") s
    refine ⟨t, ?_, noted⟩
    rw [Resolve.fromSource, perform_get_bind, recorded]
    exact (perform_bind_ok told).trans rfl
  | _ => cases known

theorem resolve_of_known {expression value : String}
    (known : known? workflow s.context expression = some value) :
    ∃ t, (resolve workflow expression).perform s = (.ok value, t) ∧
      s.SameKnown workflow (fun _ => True) t := by
  cases kept : s.kept? expression with
  | some own =>
    obtain rfl : own = value := Option.some.inj ((known?_of_kept kept).symm.trans known)
    exact ⟨s, perform_resolve_of_kept kept, .of_noted (.refl s)⟩
  | none =>
    obtain ⟨u, given, same⟩ : ∃ u, (found workflow expression).perform s = (.ok value, u) ∧
        s.SameKnown workflow (fun _ => True) u := by
      unfold found
      split
      · next inner own =>
        have shorter := Source.length_lt_of_json own
        rw [known?_of_json kept own] at known
        obtain ⟨text, inside, rfl⟩ := Option.map_eq_some_iff.mp known
        obtain ⟨t, resolved, first⟩ := resolve_of_known inside
        obtain ⟨u, normalized, noted⟩ :=
          perform_normalizeJson_compact (String.ofList inner) text t
        exact ⟨u, by rw [perform_bind_ok resolved, normalized], first.trans (.of_noted noted)⟩
      · next other =>
        rw [known?_of_other kept other] at known
        obtain ⟨u, given, noted⟩ := fromSource_of_known known expression
        exact ⟨u, given, .of_noted noted⟩
    refine ⟨_, by rw [perform_resolve_of_fresh kept, perform_bind_ok given]; rfl, same.trans ?_⟩
    have still : known? workflow u.context expression = some value := by
      rw [same.known _ trivial, known]
    exact ⟨⟨rfl, rfl⟩, rfl, fun other _ => known?_remember_of_known still other⟩
termination_by expression.length
decreasing_by simpa using shorter

/-- A value that is found for an expression with an unknown value makes it known if it was read as
JSON. Otherwise it is not known before it is kept. -/
theorem known?_of_found (unknown : known? workflow s.context expression = none)
    (given : (found workflow expression).perform s = (.ok value, t)) :
    (∃ inner, Source.of expression = .json inner) ∧
        known? workflow t.context expression = some value ∨
      (∀ inner, Source.of expression ≠ .json inner) ∧
        known? workflow t.context expression = none := by
  unfold found at given
  split at given
  · next inner own =>
    have shorter := Source.length_lt_of_json own
    obtain ⟨text, u, resolved, normalized⟩ := perform_bind_eq_ok given
    obtain ⟨v, same, noted⟩ := perform_normalizeJson_compact (String.ofList inner) text u
    rw [normalized] at same
    cases same
    refine .inl ⟨⟨inner, own⟩, ?_⟩
    -- What was kept on the way is shorter than the expression.
    have still : Table.find? expression t.context.resolved = none := by
      rw [noted.context]
      cases kept : Table.find? expression u.context.resolved with
      | none => rfl
      | some other =>
        rcases (learned_of_resolve resolved).only expression other kept with before | ⟨inside, -⟩
        · rw [Session.kept?, fresh_of_unknown unknown] at before
          cases before
        · have length := length_of_mem_chain inside
          rw [String.length_ofList] at length
          omega
    rw [known?_of_json still own, noted.context, known?_of_kept (kept_of_resolve resolved)]
    rfl
  · next other =>
    refine .inr ⟨other, ?_⟩
    have poses : Does Deed.Poses
        (Resolve.fromSource workflow expression (Source.of expression)) :=
      fromSource_poses workflow expression rfl
    rw [known?_congr (poses.resolved_eq given) (poses.inquires.sameOutputs given).jobs, unknown]

theorem resolve_alike_of_unknown {expression : String}
    (related : s.SameKnown workflow Allowed t)
    (unknown : known? workflow s.context expression = none)
    (again : known? workflow t.context expression = none) :
    ((resolve workflow expression).perform t).1 = ((resolve workflow expression).perform s).1 ∧
      ((resolve workflow expression).perform s).2.SameKnown workflow Allowed
        ((resolve workflow expression).perform t).2 := by
  rw [perform_resolve_of_fresh (fresh_of_unknown unknown),
    perform_resolve_of_fresh (fresh_of_unknown again),
    perform_bind, perform_bind]
  obtain ⟨same, after⟩ : ((found workflow expression).perform t).1 =
      ((found workflow expression).perform s).1 ∧
        ((found workflow expression).perform s).2.SameKnown workflow Allowed
          ((found workflow expression).perform t).2 := by
    unfold found
    split
    · next inner own =>
      have shorter := Source.length_lt_of_json own
      exact Alike.outcome_bind (resolve_alike_of_unknown related
          (inside_of_unknown unknown own) (inside_of_unknown again own))
        fun _ => normalizeJson_alike (agrees_of_sameKnown none) ..
    · exact (fromSource_alike (agrees_of_sameKnown none) ..).outcome related
  cases real : (found workflow expression).perform s with
  | mk result u =>
    cases other : (found workflow expression).perform t with
    | mk own v =>
      rw [real, other] at same after
      obtain rfl : own = result := same
      cases own with
      | error fault => exact ⟨rfl, after⟩
      | ok value =>
        refine ⟨rfl, ?_⟩
        -- The source is the same on both sides, so the mixed cases are void.
        rcases known?_of_found unknown real with ⟨json, first⟩ | ⟨none, first⟩
        · rcases known?_of_found again other with ⟨-, second⟩ | ⟨none, -⟩
          · exact after.remember first second
          · exact absurd json (not_exists.mpr none)
        · rcases known?_of_found again other with ⟨json, -⟩ | ⟨-, second⟩
          · exact absurd json (not_exists.mpr none)
          · exact after.learn first second
termination_by expression.length
decreasing_by simpa using shorter

theorem tallies_of_sameKnown (scope : Scope) :
    Tallies scope Allowed (Session.SameKnown scope.workflow Allowed) where
  toAgrees := agrees_of_sameKnown _
  resolve expression allowed := by
    constructor
    intro s t related
    have same := related.known expression allowed
    cases known : known? scope.workflow s.context expression with
    | none => exact resolve_alike_of_unknown related known (same.trans known)
    | some value =>
      obtain ⟨u, first, left⟩ := resolve_of_known known
      obtain ⟨v, second, right⟩ := resolve_of_known (same.trans known)
      rw [first, second]
      exact ⟨rfl, related.follow left right⟩

end Rehearsal
