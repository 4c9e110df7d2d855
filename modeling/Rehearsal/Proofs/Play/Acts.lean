import Rehearsal.Proofs.Variable.Resolve

/-! Whatever a job does is done by deeds and by calls that resolve expressions, one after the other.
`Consults` says of which kind the deeds of a play are and which expressions it resolves. What a
resolved expression keeps, and what is asked for it, is left to the calls. -/

namespace Rehearsal

/-- A deed, or a call that resolves an expression. -/
inductive Act where
  | deed (d : Deed)
  | resolve (workflow : Mapping) (expression : String)

/-- How the user is asked for an output of a step, for which no expression is resolved. -/
def stepOutputText (expression : String) : String :=
  "Enter value for step output '" ++ expression ++ "'"

/-- The deeds that resolve no expression: nothing is kept, and a question is a confirmation or asks
for an output of a step. -/
def Deed.Apart : Deed → Prop
  | remember _ _ => False
  | ask question => Answers.isConfirmation question.text = true ∨
      ∃ expression, question.text = stepOutputText expression
  | _ => True

namespace Act

def after : Act → Session → Session
  | deed d, s => d.after s
  | resolve workflow expression, s => ((Rehearsal.resolve workflow expression).perform s).2

def all (acts : List Act) (s : Session) : Session := acts.foldl (fun s a => a.after s) s

@[simp]
theorem all_cons (a : Act) (acts : List Act) (s : Session) :
    all (a :: acts) s = all acts (a.after s) := rfl

@[simp]
theorem all_append (first rest : List Act) (s : Session) :
    all (first ++ rest) s = all rest (all first s) := List.foldl_append ..

/-- That a deed is of a kind and apart, or that a call resolves an expression of some sort. -/
def Of (Kind : Deed → Prop) (Allowed : String → Prop) : Act → Prop
  | deed d => Kind d ∧ d.Apart
  | resolve _ expression => Allowed expression

end Act

/-- That whatever a play does to a session, it does by deeds of one kind and by resolving
expressions of one sort. -/
abbrev Consults {α : Type} (Kind : Deed → Prop) (Allowed : String → Prop) (play : Play α) : Prop :=
  Proceeds Act.after (Act.Of Kind Allowed) play

/-! ### Resolving as deeds -/

theorem found_inquires_of {workflow : Mapping} {expression : String}
    (shorter : ∀ inner, Source.of expression = .json inner →
      Does Deed.Inquires (resolve workflow (String.ofList inner))) :
    Does Deed.Inquires (found workflow expression) := by
  unfold found
  split
  · next inner own =>
    exact .bind (shorter inner own) fun _ => (normalizeJson_tells ..).poses.inquires
  · exact (fromSource_poses _ _ rfl).inquires

theorem resolve_inquires (workflow : Mapping) (expression : String) :
    Does Deed.Inquires (resolve workflow expression) := by
  constructor
  intro s
  cases kept : s.kept? expression with
  | some value =>
    rw [perform_resolve_of_kept kept]
    exact ⟨[], nofun, rfl⟩
  | none =>
    rw [perform_resolve_of_fresh kept]
    have finds : Does Deed.Inquires (found workflow expression) :=
      found_inquires_of fun inner own =>
        have shorter := Source.length_lt_of_json own
        resolve_inquires workflow (String.ofList inner)
    refine (Does.bind finds fun value => .bind ?_ fun _ => .pure value).deeds s
    exact .of_deed (.remember expression value) (fun _ => rfl) trivial
termination_by expression.length
decreasing_by simpa using shorter

/-! ### Kinds of acts -/

namespace Proceeds

variable {α : Type} {Kind : Deed → Prop} {Allowed : String → Prop} {play : Play α} {job : Scalar}

theorem deed (d : Deed) (same : ∀ s, (play.perform s).2 = d.after s) (kind : Kind d)
    (apart : d.Apart) : Consults Kind Allowed play := .of_step (.deed d) same ⟨kind, apart⟩

theorem log {level : Level} {message : String} (kind : Kind (.log level message)) :
    Consults Kind Allowed (Play.log level message) :=
  deed (.log level message) (fun _ => rfl) kind trivial

theorem ask {question : Question} (kind : Kind (.ask question))
    (apart : (Deed.ask question).Apart) :
    Consults Kind Allowed (Play.ask question) := deed (.ask question) (fun _ => rfl) kind apart

theorem resolve (workflow : Mapping) {expression : String} (allowed : Allowed expression) :
    Consults Kind Allowed (Rehearsal.resolve workflow expression) :=
  .of_step (.resolve workflow expression) (fun _ => rfl) allowed

theorem wider {Wider : Deed → Prop} (consults : Consults Kind Allowed play)
    (wider : ∀ d, Kind d → Wider d) : Consults Wider Allowed play :=
  consults.mono fun a own => match a, own with
    | .deed d, ⟨kind, apart⟩ => ⟨wider d kind, apart⟩
    | .resolve _ _, allowed => allowed

theorem allow {More : String → Prop} (consults : Consults Kind Allowed play)
    (more : ∀ expression, Allowed expression → More expression) : Consults Kind More play :=
  consults.mono fun a own => match a, own with
    | .deed _, own => own
    | .resolve _ expression, allowed => more expression allowed

theorem works (consults : Consults Deed.Inquires Allowed play) :
    Consults (Deed.Works job) Allowed play := consults.wider fun _ => Deed.Inquires.works

theorem ofStep (consults : Consults (Deed.Works job) Allowed play) :
    Consults (Deed.OfStep job) Allowed play := consults.wider fun _ => Deed.Works.ofStep

theorem ofJob (consults : Consults (Deed.OfStep job) Allowed play) :
    Consults (Deed.OfJob job) Allowed play := consults.wider fun _ => Deed.OfStep.ofJob

theorem inStep (consults : Consults Deed.Inquires Allowed play) :
    Consults (Deed.OfStep job) Allowed play := consults.works.ofStep

theorem inJob (consults : Consults Deed.Inquires Allowed play) :
    Consults (Deed.OfJob job) Allowed play := consults.inStep.ofJob

theorem does (consults : Consults Kind Allowed play) (inquiries : ∀ d : Deed, d.Inquires → Kind d) :
    Does Kind play := by
  constructor
  intro s
  obtain ⟨acts, kinds, same⟩ := consults.steps s
  rw [same]
  clear same
  induction acts generalizing s with
  | nil => exact ⟨[], nofun, rfl⟩
  | cons a acts ih =>
    obtain ⟨kind, others⟩ := List.forall_mem_cons.mp kinds
    cases a with
    | deed d =>
      have own : ∀ e ∈ [d], Kind e := List.forall_mem_singleton.mpr kind.1
      exact Deed.exists_all_append own rfl (ih (d.after s) others)
    | resolve workflow expression =>
      obtain ⟨deeds, own, resolved⟩ := (resolve_inquires workflow expression).deeds s
      exact Deed.exists_all_append (fun d member => inquiries d (own d member)) resolved
        (ih _ others)

theorem inquires (consults : Consults Deed.Inquires (fun _ => True) play) :
    Does Deed.Inquires play := consults.does fun _ => id

end Proceeds
end Rehearsal
