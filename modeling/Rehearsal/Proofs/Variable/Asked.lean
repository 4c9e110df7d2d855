import Rehearsal.Proofs.Variable.Resolve

/-! A call that resolves an expression makes a prompt only if the expression has kept no value, and
one prompt at most; unless the prompt itself fails, the call then comes to a value
(`Call.given_of_prompt?`). An expression that is read as JSON is asked for only by way of the
expression inside it (`questions_of_resolve`). -/

namespace Rehearsal

def Event.question? : Event → Option Question
  | ask question _ => some question
  | _ => none

/-- The questions that were put to the user, the first one first. -/
def Session.questions (s : Session) : List Question := s.trace.reverse.filterMap Event.question?

theorem Session.questions_of_trace {s t : Session} {new : List Event}
    (trace : t.trace = new ++ s.trace) :
    t.questions = s.questions ++ new.reverse.filterMap Event.question? := by
  rw [questions, trace, List.reverse_append, List.filterMap_append]
  rfl

def Session.asked (s t : Session) : List Question := t.questions.drop s.questions.length

theorem Session.asked_of_questions {s t : Session} {asked : List Question}
    (questions : t.questions = s.questions ++ asked) : s.asked t = asked := by
  rw [Session.asked, questions, List.drop_left]

def Deed.questions : Deed → List Question
  | ask question => [question]
  | _ => []

theorem Deed.after_questions (d : Deed) (s : Session) :
    (d.after s).questions = s.questions ++ d.questions := by
  rw [Session.questions_of_trace (d.after_trace s)]
  congr 1
  cases d with
  | log level message =>
    simp only [events, Play.logged]
    split <;> rfl
  | call m invocation =>
    cases recorded : m.record <;> simp [events, recorded, Event.question?, questions]
  | _ => rfl

theorem Deed.all_questions (deeds : List Deed) (s : Session) :
    (Deed.all deeds s).questions = s.questions ++ deeds.flatMap Deed.questions := by
  induction deeds generalizing s with
  | nil => exact (List.append_nil _).symm
  | cons d deeds ih =>
    rw [Deed.all_cons, ih, d.after_questions, List.flatMap_cons, List.append_assoc]

variable {s t : Session}

theorem Does.questions_eq {α : Type} {play : Play α} {result : Except Fault α}
    (does : Does Deed.Tells play) (performed : play.perform s = (result, t)) :
    t.questions = s.questions := by
  have same := does.keeps Session.questions (fun d u kind => by
    rw [d.after_questions]
    cases d with
    | log _ _ => exact List.append_nil _
    | register _ => exact List.append_nil _
    | _ => exact kind.elim) s
  rwa [performed] at same

theorem Does.questions_append {α : Type} {Kind : Deed → Prop} {play : Play α}
    {result : Except Fault α} (does : Does Kind play) (performed : play.perform s = (result, t)) :
    ∃ asked, t.questions = s.questions ++ asked := by
  obtain ⟨deeds, -, same⟩ := does.deeds s
  rw [performed] at same
  obtain rfl : t = _ := same
  exact ⟨_, Deed.all_questions deeds s⟩

open Play

/-! ### Prompts -/

/-- A prompt for a value. However often a menu is shown until an option is chosen, it is one
prompt. -/
inductive Prompt where
  | menu (text : String) (options : List String)
  | entry (text default : String)
  | secret (text : String)

def Prompt.play : Prompt → Play String
  | menu text options => choose text options
  | entry text default => freeText text default
  | secret text => Play.secret text

theorem Prompt.does (p : Prompt) : Does (fun _ => True) p.play := by
  cases p with
  | menu text options => exact (choose_poses text options).mono fun _ _ => trivial
  | entry text default => exact .bind (.ask trivial) fun _ => .pure _
  | secret text => exact .ask trivial

def Prompt.questions (p : Prompt) (s : Session) : List Question := s.asked (p.play.perform s).2

theorem Session.asked_ask (question : Question) (s : Session) :
    s.asked ((ask question).perform s).2 = [question] :=
  Session.asked_of_questions (by simp [Session.questions, Event.question?])

theorem Prompt.questions_entry (text default : String) (s : Session) :
    (entry text default).questions s = [⟨text, default, false⟩] := by
  rw [questions, play, freeText, perform_bind_ok (perform_ask ..), perform_pure]
  have same := Session.asked_ask ⟨text, default, false⟩ s
  rw [perform_ask] at same
  exact same

/-- The prompt with which a source gives the value of an expression, if it does. -/
def Source.prompt? (workflow : Mapping) (expression : String) (c : Context) :
    Source → Option Prompt
  | menu options => some (.menu ("Select value for '" ++ expression ++ "':") options)
  | input name => some (.entry ("Enter value for input '" ++ name ++ "'") "my-value")
  | secret name => some (.secret ("Enter value for secret '" ++ name ++ "'"))
  | environment name =>
    match environmentValue? workflow name with
    | .ok none => some (.entry ("Enter value for environment variable '" ++ name ++ "'") "value")
    | _ => none
  | suggestion text default => some (.entry text default)
  | json _ => none
  | output job name =>
    match c.jobOutput? (.str job) name with
    | some _ => none
    | none => some (.entry ("Enter value for job output '" ++ expression ++ "'") "output-value")
  | other => some (.entry ("Enter value for '" ++ expression ++ "'") "value")

/-- That a play makes a prompt and then does nothing but tell of the value. -/
structure Makes (p : Prompt) (play : Play String) (s : Session) (next : String → Play String) :
    Prop where
  same : play.perform s = (p.play >>= next).perform s
  tells : ∀ a, Does Deed.Tells (next a)
  ends : ∀ a u, ∃ b t, (next a).perform u = (.ok b, t)

theorem perform_announced (expression value : String) (s : Session) :
    ∃ t, (Resolve.announced expression value).perform s = (.ok value, t) := by
  rw [Resolve.announced, Play.info, perform_bind_ok (perform_log ..)]
  exact ⟨_, rfl⟩

theorem makes_announced {p : Prompt} {play : Play String} (expression : String)
    (same : play.perform s = (p.play >>= Resolve.announced expression).perform s) :
    ∃ next, Makes p play s next :=
  ⟨_, same, announced_tells expression,
    fun value u => ⟨value, perform_announced expression value u⟩⟩

variable {workflow : Mapping} {expression : String} {source : Source}

theorem makes_of_prompt? {p : Prompt}
    (prompts : source.prompt? workflow expression s.context = some p) :
    ∃ next, Makes p (Resolve.fromSource workflow expression source) s next := by
  cases source with
  | secret name =>
    obtain rfl := Option.some.inj prompts
    refine ⟨_, rfl, fun value => ?_, fun value u => ?_⟩
    · refine .bind ?_ fun _ => .bind (info_tells _) fun _ => .pure _
      exact .of_deed (.register value) (fun _ => rfl) trivial
    · rw [perform_bind_ok (perform_modify ..), Play.info, perform_bind_ok (perform_log ..)]
      exact ⟨_, _, rfl⟩
  | environment name =>
    rw [Source.prompt?] at prompts
    split at prompts
    · next unset =>
      obtain rfl := Option.some.inj prompts
      refine makes_announced expression ?_
      rw [Resolve.fromSource, unset]
      rfl
    · cases prompts
  | output job name =>
    rw [Source.prompt?] at prompts
    split at prompts
    · cases prompts
    · next unknown =>
      obtain rfl := Option.some.inj prompts
      refine makes_announced expression ?_
      rw [Resolve.fromSource, perform_get_bind, unknown]
      rfl
  | json inner => cases prompts
  | _ =>
    obtain rfl := Option.some.inj prompts
    exact makes_announced expression rfl

theorem questions_of_unprompted {result : Except Fault String}
    (unprompted : source.prompt? workflow expression s.context = none)
    (other : ∀ inner, source ≠ .json inner)
    (performed : (Resolve.fromSource workflow expression source).perform s = (result, t)) :
    t.questions = s.questions := by
  cases source with
  | environment name =>
    rw [Resolve.fromSource] at performed
    cases searched : environmentValue? workflow name with
    | error fault =>
      rw [searched] at performed
      cases performed
      rfl
    | ok found =>
      cases found with
      | none => simp [Source.prompt?, searched] at unprompted
      | some value =>
        rw [searched] at performed
        have tells : Does Deed.Tells (do
            Resolve.announced expression (← fit value.expressionText) : Play String) :=
          .bind (.fit _) fun _ => announced_tells ..
        exact tells.questions_eq performed
  | output job name =>
    rw [Source.prompt?] at unprompted
    rw [Resolve.fromSource, perform_get_bind] at performed
    split at unprompted
    · next value known =>
      rw [known] at performed
      have tells : Does Deed.Tells (do
          info ("Using job output: " ++ job ++ "." ++ name ++ " = \"" ++ value ++ "\"")
          return value : Play String) := .bind (info_tells _) fun _ => .pure _
      exact tells.questions_eq performed
    · cases unprompted
  | json inner => exact absurd rfl (other inner)
  | _ => cases unprompted

theorem Makes.outcome {p : Prompt} {play : Play String} {next : String → Play String}
    (makes : Makes p play s next) {result : Except Fault String}
    (performed : play.perform s = (result, t)) :
    t.questions = s.questions ++ p.questions s ∧
      ∀ value, (p.play.perform s).1 = .ok value → ∃ given, result = .ok given := by
  rw [makes.same] at performed
  have put (first : Except Fault String) (u : Session) (made : p.play.perform s = (first, u)) :
      u.questions = s.questions ++ p.questions s := by
    obtain ⟨asked, questions⟩ := p.does.questions_append made
    rw [Prompt.questions, made, Session.asked_of_questions questions, questions]
  rcases perform_bind_cases performed with ⟨fault, failed, rfl⟩ | ⟨value, u, made, told⟩
  · refine ⟨put _ _ failed, fun value given => ?_⟩
    rw [failed] at given
    cases given
  · refine ⟨?_, fun _ _ => ?_⟩
    · rw [(makes.tells value).questions_eq told, put _ _ made]
    · obtain ⟨given, v, ended⟩ := makes.ends value u
      rw [ended] at told
      cases told
      exact ⟨given, rfl⟩

/-! ### Calls -/

/-- A call that resolves an expression. -/
structure Call where
  workflow : Mapping
  expression : String
  start : Session

namespace Call

def result (c : Call) : Except Fault String :=
  ((resolve c.workflow c.expression).perform c.start).1

def finish (c : Call) : Session := ((resolve c.workflow c.expression).perform c.start).2

/-- The prompt that the call makes. If the expression is read as JSON, it is the call for the
expression inside it that makes one. -/
def prompt? (c : Call) : Option Prompt :=
  match c.start.kept? c.expression with
  | some _ => none
  | none => (Source.of c.expression).prompt? c.workflow c.expression c.start.context

def questions (c : Call) : List Question := (c.prompt?.map (·.questions c.start)).getD []

def Fails (c : Call) : Prop :=
  ∃ p fault, c.prompt? = some p ∧ (p.play.perform c.start).1 = .error fault

/-- A call of an expression and the calls on its way, its own the last one. -/
def along (workflow : Mapping) (expression : String) (s : Session) : List Call :=
  (chain s expression).map fun x => ⟨workflow, x, s⟩

variable {c : Call}

theorem prompt?_of_kept {value : String} (kept : c.start.kept? c.expression = some value) :
    c.prompt? = none := by
  rw [prompt?, kept]

theorem prompt?_of_fresh (fresh : c.start.kept? c.expression = none) :
    c.prompt? = (Source.of c.expression).prompt? c.workflow c.expression c.start.context := by
  rw [prompt?, fresh]

theorem prompt?_of_json {inner : List Char} (own : Source.of c.expression = .json inner) :
    c.prompt? = none := by
  unfold prompt?
  split
  · rfl
  · rw [own, Source.prompt?]

theorem questions_of_unprompted (unprompted : c.prompt? = none) : c.questions = [] := by
  rw [questions, unprompted]
  rfl

theorem outcome (fresh : c.start.kept? c.expression = none)
    (other : ∀ inner, Source.of c.expression ≠ .json inner) {result : Except Fault String}
    {t : Session} (given : (found c.workflow c.expression).perform c.start = (result, t)) :
    t.questions = c.start.questions ++ c.questions ∧
      ∀ p, c.prompt? = some p → ∀ value, (p.play.perform c.start).1 = .ok value →
        ∃ given, result = .ok given := by
  have looked : (Resolve.fromSource c.workflow c.expression (Source.of c.expression)).perform
      c.start = (result, t) := by
    unfold found at given
    split at given
    · next inner own => exact absurd own (other inner)
    · exact given
  have own := prompt?_of_fresh fresh
  rw [questions, own]
  cases prompts : (Source.of c.expression).prompt? c.workflow c.expression c.start.context with
  | none =>
    refine ⟨?_, nofun⟩
    rw [Rehearsal.questions_of_unprompted prompts other looked]
    exact (List.append_nil _).symm
  | some p =>
    obtain ⟨next, makes⟩ := makes_of_prompt? prompts
    obtain ⟨put, ends⟩ := makes.outcome looked
    refine ⟨put, ?_⟩
    rintro _ ⟨rfl⟩
    exact ends

theorem given_of_prompt? {p : Prompt} (prompts : c.prompt? = some p) (works : ¬c.Fails) :
    ∃ value, c.result = .ok value := by
  cases kept : c.start.kept? c.expression with
  | some value =>
    rw [prompt?_of_kept kept] at prompts
    cases prompts
  | none =>
    have other (inner : List Char) : Source.of c.expression ≠ .json inner := by
      intro own
      rw [prompt?_of_json own] at prompts
      cases prompts
    have answered : ∃ value, (p.play.perform c.start).1 = .ok value := by
      cases answer : (p.play.perform c.start).1 with
      | ok value => exact ⟨value, rfl⟩
      | error fault => exact absurd ⟨p, fault, prompts, answer⟩ works
    obtain ⟨value, answer⟩ := answered
    cases performed : (found c.workflow c.expression).perform c.start with
    | mk result t =>
      obtain ⟨given, rfl⟩ := (outcome kept other performed).2 p prompts value answer
      refine ⟨given, ?_⟩
      rw [Call.result, perform_resolve_of_fresh kept, perform_bind_ok performed]
      rfl

theorem along_of_json {workflow : Mapping} {expression : String} {inner : List Char}
    (fresh : s.kept? expression = none) (own : Source.of expression = .json inner) :
    along workflow expression s =
      along workflow (String.ofList inner) s ++ [⟨workflow, expression, s⟩] := by
  rw [along, chain_of_json fresh own, List.map_append]
  rfl

end Call

theorem questions_of_resolve (workflow : Mapping) (expression : String) (s : Session) :
    ((resolve workflow expression).perform s).2.questions =
      s.questions ++ (Call.along workflow expression s).flatMap Call.questions := by
  let c : Call := ⟨workflow, expression, s⟩
  have during {r : Except Fault String} {u : Session} (fresh : s.kept? expression = none)
      (given : (found workflow expression).perform s = (r, u)) :
      u.questions = s.questions ++ (Call.along workflow expression s).flatMap Call.questions := by
    by_cases json : ∃ inner, Source.of expression = .json inner
    · obtain ⟨inner, own⟩ := json
      have shorter := Source.length_lt_of_json own
      have inside : u.questions =
          ((resolve workflow (String.ofList inner)).perform s).2.questions := by
        simp only [found, own] at given
        rcases perform_bind_cases given with ⟨fault, failed, -⟩ | ⟨value, v, resolved, further⟩
        · rw [failed]
        · rw [resolved, (normalizeJson_tells ..).questions_eq further]
      have none : c.questions = [] := c.questions_of_unprompted (c.prompt?_of_json own)
      rw [inside, questions_of_resolve workflow (String.ofList inner) s,
        Call.along_of_json fresh own, List.flatMap_append, List.flatMap_singleton, none,
        List.append_nil]
    · have other := not_exists.mp json
      rw [Call.along, chain_of_other other, List.map_singleton, List.flatMap_singleton]
      exact (c.outcome fresh other given).1
  cases performed : (resolve workflow expression).perform s with
  | mk result t =>
    cases resolution_of_perform performed with
    | kept kept =>
      rw [Call.along, chain_of_kept kept, List.map_singleton, List.flatMap_singleton,
        c.questions_of_unprompted (c.prompt?_of_kept kept), List.append_nil]
    | failed fresh failed => exact during fresh failed
    | @fresh value u fresh given =>
      have same := during fresh given
      exact same
termination_by expression.length
decreasing_by simpa using shorter

end Rehearsal
