import Rehearsal.Proofs.Job.Deeds
import Rehearsal.Proofs.Variable.Asked

/-! Whatever a run does, in whatever order, an expression keeps its value once it has one, each call
that resolves it gives that value, and the user is asked for it once:
`expressions_keep_their_values`. -/

namespace Rehearsal

/-! ### The calls of acts -/

namespace Act

/-- The calls of an act, those on the way to an expression before its own. -/
def calls (s : Session) : Act → List Call
  | deed _ => []
  | resolve workflow expression => Call.along workflow expression s

def questions (s : Session) : Act → List Question
  | deed d => d.questions
  | resolve workflow expression => (Call.along workflow expression s).flatMap Call.questions

def allCalls : List Act → Session → List Call
  | [], _ => []
  | a :: acts, s => a.calls s ++ allCalls acts (a.after s)

def allQuestions : List Act → Session → List Question
  | [], _ => []
  | a :: acts, s => a.questions s ++ allQuestions acts (a.after s)

theorem after_questions (a : Act) (s : Session) :
    (a.after s).questions = s.questions ++ a.questions s := by
  cases a with
  | deed d => exact d.after_questions s
  | resolve workflow expression => exact questions_of_resolve workflow expression s

theorem all_questions (acts : List Act) (s : Session) :
    (all acts s).questions = s.questions ++ allQuestions acts s := by
  induction acts generalizing s with
  | nil => exact (List.append_nil _).symm
  | cons a acts ih => rw [all_cons, ih, after_questions, allQuestions, List.append_assoc]

theorem Of.apart {Kind : Deed → Prop} {Allowed : String → Prop} {d : Deed}
    (own : Of Kind Allowed (deed d)) : ∀ question ∈ d.questions,
      Answers.isConfirmation question.text = true ∨
        ∃ expression, question.text = stepOutputText expression := by
  intro question member
  cases d with
  | ask asked =>
    rw [List.mem_singleton.mp member]
    exact own.2
  | _ => nomatch member

end Act

variable {Kind : Deed → Prop} {Allowed : String → Prop}

/-! ### What acts keep -/

theorem Deed.Apart.after_resolved {d : Deed} (apart : d.Apart) (s : Session) :
    (d.after s).context.resolved = s.context.resolved := by
  cases d <;> first
    | exact apart.elim
    | simp [after, play, Play.echo, Play.perform_discard, Job.skip, Job.failLast,
        Context.recordStep, Context.recordJob]

theorem Act.Of.recalled {a : Act} (own : a.Of Kind Allowed) (s : Session) :
    s.Recalled (a.after s) := by
  cases a with
  | deed d => exact Session.recalled_of_resolved (own.2.after_resolved s)
  | resolve workflow expression =>
    exact (learned_of_resolve rfl).recalled

theorem Act.all_recalled {acts : List Act} (own : ∀ a ∈ acts, a.Of Kind Allowed) (s : Session) :
    s.Recalled (all acts s) := by
  induction acts generalizing s with
  | nil => exact .refl s
  | cons a acts ih =>
    obtain ⟨first, others⟩ := List.forall_mem_cons.mp own
    exact (first.recalled s).trans (ih others (a.after s))

theorem Act.kept_of_call {a : Act} {s : Session} {c : Call} (member : c ∈ a.calls s)
    {value : String} (given : c.result = .ok value) :
    (a.after s).kept? c.expression = some value := by
  cases a with
  | deed d => nomatch member
  | resolve workflow expression =>
    obtain ⟨x, inside, rfl⟩ := List.mem_map.mp member
    exact (learned_of_resolve rfl).kept x inside value given

theorem Act.recalled_of_call {acts : List Act} (own : ∀ a ∈ acts, a.Of Kind Allowed) {s : Session}
    {c : Call} (member : c ∈ allCalls acts s) : s.Recalled c.start := by
  induction acts generalizing s with
  | nil => nomatch member
  | cons a acts ih =>
    obtain ⟨first, others⟩ := List.forall_mem_cons.mp own
    rcases List.mem_append.mp member with here | later
    · cases a with
      | deed d => nomatch here
      | resolve workflow expression =>
        obtain ⟨x, -, rfl⟩ := List.mem_map.mp here
        exact .refl s
    · exact (first.recalled s).trans (ih others later)

/-! ### Repeated calls -/

/-- That a later call of the same expression repeats the value of an earlier one: it gives that
value, makes no prompt and changes nothing. -/
def Call.RepeatedBy (c d : Call) : Prop :=
  c.expression = d.expression → ∀ value, c.result = .ok value →
    d.result = .ok value ∧ d.prompt? = none ∧ d.finish = d.start

theorem Call.repeats_of_kept {d : Call} {value : String}
    (kept : d.start.kept? d.expression = some value) :
    d.result = .ok value ∧ d.prompt? = none ∧ d.finish = d.start := by
  have resolved : (resolve d.workflow d.expression).perform d.start = (.ok value, d.start) :=
    perform_resolve_of_kept kept
  exact ⟨congrArg Prod.fst resolved, prompt?_of_kept kept, congrArg Prod.snd resolved⟩

theorem Act.calls_pairwise {acts : List Act} (own : ∀ a ∈ acts, a.Of Kind Allowed) (s : Session) :
    (allCalls acts s).Pairwise Call.RepeatedBy := by
  induction acts generalizing s with
  | nil => exact .nil
  | cons a acts ih =>
    obtain ⟨first, others⟩ := List.forall_mem_cons.mp own
    refine List.pairwise_append.mpr ⟨?_, ih others (a.after s), ?_⟩
    · cases a with
      | deed d => exact .nil
      | resolve workflow expression =>
        refine List.pairwise_map.mpr ((chain_distinct s expression).imp ?_)
        intro x y ne same
        exact absurd same ne
    -- What the first act kept is still kept when a later call starts.
    · intro c here d later same value given
      have kept := recalled_of_call others later _ _ (kept_of_call here given)
      exact Call.repeats_of_kept (same ▸ kept)

theorem Act.prompted_once {acts : List Act} (own : ∀ a ∈ acts, a.Of Kind Allowed) (s : Session)
    (works : ∀ c ∈ allCalls acts s, ¬c.Fails) :
    (allCalls acts s).Pairwise fun c d => c.expression = d.expression →
      c.prompt? = none ∨ d.prompt? = none := by
  refine (calls_pairwise own s).imp_of_mem ?_
  intro c d member _ repeated same
  cases prompts : c.prompt? with
  | none => exact .inl rfl
  | some p =>
    obtain ⟨value, given⟩ := c.given_of_prompt? prompts (works c member)
    exact .inr (repeated same value given).2.1

namespace Run

/-! ### Operations -/

/-- What a run is made of, at every level. -/
inductive Operation where
  | resolve (workflow : Mapping) (expression : String)
  | fill (scope : Scope) (title text : String)
  | decide (frame : Condition.Frame) (condition : Value)
  | expand (scope : Scope) (matrix : Value)
  | step (site : Step.Site) (own : Value) (index : Nat)
  | environment (scope : Scope) (definition : Mapping)
  | outputs (scope : Scope) (definition : Mapping)
  | job (workflow : Mapping) (root : String) (name : Scalar) (definition : Value)

namespace Operation

def play : Operation → Play Unit
  | resolve workflow expression => discard (Rehearsal.resolve workflow expression)
  | fill scope title text => discard (Rehearsal.fill scope title text)
  | decide frame condition => discard (Condition.holds frame condition)
  | expand scope matrix => discard (Matrix.expand scope matrix)
  | step site own index => discard (Step.run site own index)
  | environment scope definition => discard (Job.environment scope definition)
  | outputs scope definition => Job.recordOutputs scope definition
  | job workflow root name definition => Job.run workflow root name definition

/-- The session after an operation, whether it came to its end or to a fault. -/
def after (o : Operation) (s : Session) : Session := (o.play.perform s).2

def all (operations : List Operation) (s : Session) : Session :=
  operations.foldl (fun s o => o.after s) s

/-- Acts of any kind. Deeds keep no values, and their questions are of their own. -/
abbrev Free (a : Act) : Prop := a.Of (fun _ => True) fun _ => True

theorem consults (o : Operation) : Consults (fun _ => True) (fun _ => True) o.play := by
  have free {α : Type} {Kind : Deed → Prop} {play : Play α}
      (consults : Consults Kind (fun _ => True) play) :
      Consults (fun _ => True) (fun _ => True) (discard play) :=
    .map _ (consults.wider fun _ _ => trivial)
  have called (workflow : Mapping) (expression : String) : Consults (fun _ => True)
      (fun _ => True) (Rehearsal.resolve workflow expression) := .resolve workflow trivial
  cases o with
  | resolve workflow expression =>
    exact free (called workflow expression)
  | fill scope title text => exact free (fill_consults scope title fun _ _ => trivial)
  | decide frame condition => exact free (Condition.holds_consults .all frame condition)
  | expand scope matrix =>
    exact free (Matrix.expand_consults scope (.all matrix) fun _ _ _ value _ _ => .all value)
  | step site own index => exact free (Step.run_consults (.all site) (.all own) index)
  | environment scope definition => exact free (Job.environment_consults scope (.all _))
  | outputs scope definition =>
    exact (Job.recordOutputs_consults scope (.all _)).wider fun _ _ => trivial
  | job workflow root name definition =>
    exact (Job.run_consults rfl (.all _) fun _ _ _ value _ _ => .all value).wider
      fun _ _ => trivial

end Operation

/-- The acts of operations, one after the other. An operation that resolves an expression is just
that call. -/
inductive Acts : List Operation → Session → List Act → Prop
  | nil (s : Session) : Acts [] s []
  | cons {o : Operation} {operations : List Operation} {s : Session} {acts more : List Act}
      (own : ∀ a ∈ acts, Operation.Free a) (same : o.after s = Act.all acts s)
      (call : ∀ workflow expression, o = .resolve workflow expression →
        acts = [.resolve workflow expression])
      (rest : Acts operations (o.after s) more) : Acts (o :: operations) s (acts ++ more)

theorem exists_acts (operations : List Operation) (s : Session) :
    ∃ acts, Acts operations s acts := by
  induction operations generalizing s with
  | nil => exact ⟨[], .nil s⟩
  | cons o operations ih =>
    obtain ⟨more, rest⟩ := ih (o.after s)
    by_cases call : ∃ workflow expression, o = .resolve workflow expression
    · obtain ⟨workflow, expression, rfl⟩ := call
      have same : (Operation.resolve workflow expression).after s =
          Act.all [.resolve workflow expression] s := Play.perform_discard _ s
      have free : Operation.Free (.resolve workflow expression) := trivial
      refine ⟨_, .cons (List.forall_mem_singleton.mpr free) same ?_ rest⟩
      rintro _ _ ⟨rfl, rfl⟩
      rfl
    · obtain ⟨acts, own, same⟩ := o.consults.steps s
      exact ⟨_, .cons own same (fun workflow expression is => absurd ⟨_, _, is⟩ call) rest⟩

theorem Acts.own {operations : List Operation} {s : Session} {acts : List Act}
    (made : Acts operations s acts) : ∀ a ∈ acts, Operation.Free a := by
  induction made with
  | nil => nofun
  | cons own _ _ _ ih => exact List.forall_mem_append.mpr ⟨own, ih⟩

theorem Acts.all {operations : List Operation} {s : Session} {acts : List Act}
    (made : Acts operations s acts) : Operation.all operations s = Act.all acts s := by
  induction made with
  | nil => rfl
  | @cons o operations s acts more own same call rest ih =>
    rw [Act.all_append, ← same]
    exact ih

/-- **Memory.** Operations of a run come down to acts, and for all acts that they come down to: a
kept value is never changed or lost; a later call of an expression repeats the value that an earlier
one gave; all questions are put by prompts of calls, but for confirmations and those for outputs of
steps; an expression that is read as JSON has no prompt of its own; and unless a prompt fails, of
all calls of one expression only one makes a prompt. -/
theorem expressions_keep_their_values (operations : List Operation) (s : Session) :
    (∃ acts, Acts operations s acts) ∧ ∀ acts, Acts operations s acts →
      (∀ before between after, acts = before ++ between ++ after →
        (Act.all before s).Recalled (Act.all (before ++ between) s)) ∧
      (Act.allCalls acts s).Pairwise Call.RepeatedBy ∧
      (Operation.all operations s).questions = s.questions ++ Act.allQuestions acts s ∧
      (∀ d, .deed d ∈ acts → ∀ question ∈ d.questions,
        Answers.isConfirmation question.text = true ∨
          ∃ expression, question.text = stepOutputText expression) ∧
      (∀ c ∈ Act.allCalls acts s, ∀ inner, Source.of c.expression = .json inner →
        c.prompt? = none) ∧
      ((∀ c ∈ Act.allCalls acts s, ¬c.Fails) →
        (Act.allCalls acts s).Pairwise fun c d => c.expression = d.expression →
          c.prompt? = none ∨ d.prompt? = none) := by
  refine ⟨exists_acts operations s, ?_⟩
  intro acts made
  have own := made.own
  refine ⟨?_, Act.calls_pairwise own s, ?_, ?_, ?_, Act.prompted_once own s⟩
  · rintro before between after rfl
    rw [Act.all_append]
    refine Act.all_recalled (fun a member => own a ?_) _
    exact List.mem_append_left _ (List.mem_append_right _ member)
  · rw [made.all, Act.all_questions]
  · intro d member
    exact (own _ member).apart
  · intro c member inner
    exact c.prompt?_of_json

end Run
end Rehearsal
