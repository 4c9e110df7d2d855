import Rehearsal.Proofs.Play.Perform
import Rehearsal.Variable.Resolve

/-! `Yields` tells what a play comes to when it begins in a session that fits: its result, or the
faults that it may end with. It follows the ways in which plays are put together. What fits has to
be `Steady`: it may only be about the answers, reports and mocks that are still to come. -/

namespace Rehearsal

/-- That an outcome is a result of one kind or a fault of another. -/
def Ends {α : Type} (Allowed : Fault → Prop) (Result : α → Prop) : Except Fault α → Prop
  | .ok a => Result a
  | .error fault => Allowed fault

/-- What a play comes to from sessions that fit, and that they fit afterwards. -/
structure Yields {α : Type} (Fit : Session → Prop) (Allowed : Fault → Prop) (Result : α → Prop)
    (play : Play α) : Prop where
  outcome : ∀ s, Fit s → Fit (play.perform s).2 ∧ Ends Allowed Result (play.perform s).1

namespace Yields

variable {α β : Type} {Fit : Session → Prop} {Allowed Wider : Fault → Prop} {Result : α → Prop}
  {Further : β → Prop}

theorem of_perform {play : Play α}
    (performs : ∀ s, Fit s → ∃ a t, play.perform s = (.ok a, t) ∧ Fit t ∧ Result a) :
    Yields Fit Allowed Result play := by
  constructor
  intro s fit
  obtain ⟨a, t, performed, still, result⟩ := performs s fit
  rw [performed]
  exact ⟨still, result⟩

theorem adopt {outcome : Except Fault α} (ends : Ends Allowed Result outcome) :
    Yields Fit Allowed Result (Play.adopt outcome) := by
  constructor
  intro s fit
  rw [Play.perform_adopt]
  exact ⟨fit, ends⟩

theorem pure {a : α} (result : Result a) : Yields Fit Allowed Result (Pure.pure a : Play α) :=
  of_perform fun s fit => ⟨a, s, rfl, fit, result⟩

theorem throw {fault : Fault} (allowed : Allowed fault) :
    Yields Fit Allowed Result (MonadExcept.throw fault : Play α) :=
  ⟨fun _ fit => ⟨fit, allowed⟩⟩

theorem fit {outcome : Except Unfit α} (result : ∀ a, outcome = .ok a → Result a)
    (allowed : ∀ u, outcome = .error u → Allowed (.unfit u)) :
    Yields Fit Allowed Result (Play.fit outcome) := by
  refine adopt ?_
  cases outcome with
  | ok a => exact result a rfl
  | error u => exact allowed u rfl

theorem get : Yields Fit Allowed Fit (MonadState.get : Play Session) :=
  of_perform fun s fit => ⟨s, s, rfl, fit, fit⟩

theorem mask (text : String) : Yields Fit Allowed (fun _ => True) (Play.mask text) :=
  of_perform fun s fit => ⟨_, s, Play.perform_mask text s, fit, trivial⟩

theorem bind {play : Play α} {next : α → Play β} (first : Yields Fit Allowed Result play)
    (rest : ∀ a, Result a → Yields Fit Allowed Further (next a)) :
    Yields Fit Allowed Further (play >>= next) := by
  constructor
  intro s fit
  obtain ⟨still, ends⟩ := first.outcome s fit
  rw [Play.perform_bind]
  cases performed : play.perform s with
  | mk result t =>
    rw [performed] at still ends
    cases result with
    | error fault => exact ⟨still, ends⟩
    | ok a => exact (rest a ends).outcome t still

theorem bind_adopt {outcome : Except Fault α} {next : α → Play β}
    (failed : ∀ fault, outcome = .error fault → Allowed fault)
    (rest : ∀ a, outcome = .ok a → Yields Fit Allowed Further (next a)) :
    Yields Fit Allowed Further (Play.adopt outcome >>= next) := by
  cases outcome with
  | error fault => exact ⟨fun _ fit => ⟨fit, failed fault rfl⟩⟩
  | ok a => exact ⟨fun s fit => (rest a rfl).outcome s fit⟩

theorem bind_fit {outcome : Except Unfit α} {next : α → Play β}
    (failed : ∀ u, outcome = .error u → Allowed (.unfit u))
    (rest : ∀ a, outcome = .ok a → Yields Fit Allowed Further (next a)) :
    Yields Fit Allowed Further (Play.fit outcome >>= next) := by
  cases outcome with
  | error u => exact ⟨fun _ fit => ⟨fit, failed u rfl⟩⟩
  | ok a => exact ⟨fun s fit => (rest a rfl).outcome s fit⟩

theorem map {play : Play α} {f : α → β} (yields : Yields Fit Allowed Result play)
    (further : ∀ a, Result a → Further (f a)) : Yields Fit Allowed Further (f <$> play) := by
  constructor
  intro s fit
  obtain ⟨still, ends⟩ := yields.outcome s fit
  rw [Play.perform_map]
  cases performed : play.perform s with
  | mk result t =>
    rw [performed] at still ends
    cases result with
    | error fault => exact ⟨still, ends⟩
    | ok a => exact ⟨still, further a ends⟩

theorem mono {play : Play α} {Other : α → Prop} (yields : Yields Fit Allowed Result play)
    (result : ∀ a, Result a → Other a) (allowed : ∀ fault, Allowed fault → Wider fault) :
    Yields Fit Wider Other play := by
  constructor
  intro s fit
  obtain ⟨still, ends⟩ := yields.outcome s fit
  refine ⟨still, ?_⟩
  cases performed : (play.perform s).1 with
  | error fault =>
    rw [performed] at ends
    exact allowed fault ends
  | ok a =>
    rw [performed] at ends
    exact result a ends

theorem tryCatch {play : Play α} {handle : Fault → Play α}
    (first : Yields Fit Wider Result play)
    (rest : ∀ fault, Wider fault → Yields Fit Allowed Result (handle fault)) :
    Yields Fit Allowed Result (MonadExcept.tryCatch play handle) := by
  constructor
  intro s fit
  obtain ⟨still, ends⟩ := first.outcome s fit
  rw [Play.perform_tryCatch]
  cases performed : play.perform s with
  | mk result t =>
    rw [performed] at still ends
    cases result with
    | ok a => exact ⟨still, ends⟩
    | error fault => exact (rest fault ends).outcome t still

theorem forIn {items : List α} {f : α → PUnit → Play (ForInStep PUnit)} {init : PUnit}
    (each : ∀ a ∈ items, Yields Fit Allowed (fun _ => True) (f a init)) :
    Yields Fit Allowed (fun _ => True) (ForIn.forIn items init f) := by
  induction items with
  | nil => exact pure trivial
  | cons a rest ih =>
    rw [List.forall_mem_cons] at each
    rw [List.forIn_cons]
    refine bind each.1 fun step _ => ?_
    cases step with
    | done b => exact pure trivial
    | yield b => exact ih each.2

theorem mapM {items : List α} {f : α → Play β}
    (each : ∀ a ∈ items, Yields Fit Allowed Further (f a)) :
    Yields Fit Allowed (fun bs => ∀ b ∈ bs, Further b) (items.mapM f) := by
  induction items with
  | nil => exact pure (by simp)
  | cons a rest ih =>
    rw [List.forall_mem_cons] at each
    rw [List.mapM_cons]
    exact bind each.1 fun b own => bind (ih each.2) fun bs others =>
      pure (List.forall_mem_cons.mpr ⟨own, others⟩)

end Yields

/-- That every answer to come names an option by a numeral, or by a text that is not taken for
one. -/
def Answers.Readable (a : Answers) : Prop :=
  ∀ answer ∈ a.texts, ∀ options, ∃ option, Play.chosen? options (Text.trimmed answer) = .ok option

theorem Answers.texts_next_subset (a : Answers) (text : String) :
    ∀ answer ∈ (a.next text).2.texts, answer ∈ a.texts := by
  intro answer member
  unfold next at member
  split at member
  · split at member
    · exact member
    · exact member
  · split at member
    · next first rest same =>
      rw [same]
      exact List.mem_cons_of_mem _ member
    · exact member

theorem Answers.Readable.next {a : Answers} (readable : a.Readable) (text : String) :
    (a.next text).2.Readable :=
  fun answer member => readable answer (a.texts_next_subset text answer member)

/-- What holds of a session as long as its answers are readable and nothing is done to its reports
and its mocks. -/
structure Steady (Fit : Session → Prop) : Prop where
  apart : ∀ s t : Session, t.answers = s.answers → t.reports = s.reports →
    t.registry = s.registry → Fit s → Fit t
  asked : ∀ (s t : Session) (text : String), t.answers = (s.answers.next text).2 →
    t.reports = s.reports → t.registry = s.registry → Fit s → Fit t
  readable : ∀ {s : Session}, Fit s → s.answers.Readable

theorem steady_readable : Steady fun s => s.answers.Readable where
  apart _ _ answers _ _ readable := by rwa [answers]
  asked _ _ text answers _ _ readable := by
    rw [answers]
    exact readable.next text
  readable := id

namespace Steady

variable {Fit : Session → Prop} {Allowed : Fault → Prop}

open Play

theorem log (steady : Steady Fit) (level : Level) (message : String) :
    Yields Fit Allowed (fun _ => True) (log level message) :=
  .of_perform fun s fit =>
    ⟨_, _, perform_log level message s, steady.apart s _ rfl rfl rfl fit, trivial⟩

theorem info (steady : Steady Fit) (message : String) :
    Yields Fit Allowed (fun _ => True) (info message) := steady.log ..

theorem warning (steady : Steady Fit) (message : String) :
    Yields Fit Allowed (fun _ => True) (warning message) := steady.log ..

theorem error (steady : Steady Fit) (message : String) :
    Yields Fit Allowed (fun _ => True) (error message) := steady.log ..

theorem debug (steady : Steady Fit) (message : String) :
    Yields Fit Allowed (fun _ => True) (debug message) := steady.log ..

theorem record (steady : Steady Fit) (event : Event) :
    Yields Fit Allowed (fun _ => True) (record event) :=
  .of_perform fun s fit => ⟨_, _, perform_record event s, steady.apart s _ rfl rfl rfl fit, trivial⟩

theorem modifyContext (steady : Steady Fit) (f : Context → Context) :
    Yields Fit Allowed (fun _ => True) (modifyContext f) :=
  .of_perform fun s fit =>
    ⟨_, _, perform_modifyContext f s, steady.apart s _ rfl rfl rfl fit, trivial⟩

theorem register (steady : Steady Fit) (value : String) :
    Yields Fit Allowed (fun _ => True)
      (modify fun s => { s with secrets := s.secrets.register value } : Play PUnit) :=
  .of_perform fun s fit => ⟨_, _, perform_modify _ s, steady.apart s _ rfl rfl rfl fit, trivial⟩

theorem modifyPolicy (steady : Steady Fit) (f : Policy → Policy) :
    Yields Fit Allowed (fun _ => True) (modifyPolicy f) :=
  .of_perform fun s fit =>
    ⟨_, _, perform_modifyPolicy f s, steady.apart s _ rfl rfl rfl fit, trivial⟩

theorem modifyLedger (steady : Steady Fit) (f : Ledger → Ledger) :
    Yields Fit Allowed (fun _ => True) (modifyLedger f) :=
  .of_perform fun s fit =>
    ⟨_, _, perform_modifyLedger f s, steady.apart s _ rfl rfl rfl fit, trivial⟩

theorem ask (steady : Steady Fit) (question : Question) :
    Yields Fit Allowed (fun _ => True) (ask question) := by
  refine .of_perform fun s fit => ⟨_, _, perform_ask question s, ?_, trivial⟩
  exact steady.asked s _ question.text rfl rfl rfl fit

theorem freeText (steady : Steady Fit) (text default : String) :
    Yields Fit Allowed (fun _ => True) (freeText text default) :=
  .bind (steady.ask _) fun _ _ => .pure trivial

theorem confirm (steady : Steady Fit) (question : String) :
    Yields Fit Allowed (fun _ => True) (confirm question) :=
  .bind (steady.ask _) fun _ _ => .pure trivial

theorem chosen?_default (first : String) (rest : List String) :
    chosen? (first :: rest) (Text.trimmed "1") = .ok (some first) := by
  have number : Text.decimalValue? (Text.trimmed "1").toList = some 1 := by decide
  have digits : (!(Text.trimmed "1").toList.isEmpty &&
      (Text.trimmed "1").toList.all Text.isDigit) = true := by decide
  have short : ¬Numeral.maxDigits < (Text.trimmed "1").toList.length := by decide
  unfold chosen?
  simp [number, digits, short, pure, Except.pure]

theorem chosen?_answer {options : List String} (nonempty : options ≠ []) {s : Session}
    (readable : s.answers.Readable) :
    ∃ option, chosen? options (Text.trimmed (answer ⟨"Select", "1", false⟩ s)) = .ok option ∧
      (option = none →
        (s.answers.next "Select").2.texts.length < s.answers.texts.length) := by
  obtain ⟨first, others, rfl⟩ := List.exists_cons_of_ne_nil nonempty
  have free : Answers.isConfirmation "Select" = false := by decide
  have byDefault := chosen?_default first others
  unfold answer Answers.next
  rw [free]
  cases texts : s.answers.texts with
  | nil => exact ⟨some first, by simpa using byDefault, by simp⟩
  | cons typed rest =>
    by_cases empty : typed = ""
    · exact ⟨some first, by simpa [empty] using byDefault, by simp⟩
    · obtain ⟨option, chosen⟩ := readable typed (by rw [texts]; exact List.mem_cons_self) _
      exact ⟨option, by simpa [empty] using chosen, fun _ => by simp⟩

theorem chooseWithin (steady : Steady Fit) {options : List String} (nonempty : options ≠ [])
    (tries : Nat) {s : Session} (fit : Fit s) (enough : s.answers.texts.length < tries) :
    Fit ((chooseWithin options tries).perform s).2 ∧
      Ends Allowed (fun _ => True) ((chooseWithin options tries).perform s).1 := by
  induction tries generalizing s with
  | zero => cases enough
  | succ tries ih =>
    obtain ⟨option, chosen, fewer⟩ := chosen?_answer nonempty (steady.readable fit)
    obtain ⟨t, asked, still, left⟩ : ∃ t, (Play.ask ⟨"Select", "1", false⟩).perform s =
        (.ok (answer ⟨"Select", "1", false⟩ s), t) ∧ Fit t ∧
          t.answers = (s.answers.next "Select").2 :=
      ⟨_, perform_ask .., steady.asked s _ "Select" rfl rfl rfl fit, rfl⟩
    unfold Play.chooseWithin
    rw [perform_bind_ok asked, chosen]
    cases option with
    | some option => exact ⟨still, trivial⟩
    | none =>
      have less := fewer rfl
      rw [perform_bind_ok (perform_adopt ..)]
      dsimp only
      rw [echo, perform_bind_ok (perform_record ..)]
      refine ih (steady.apart t _ rfl rfl rfl still) ?_
      rw [← left] at less
      dsimp only
      omega

theorem choose (steady : Steady Fit) (text : String) {options : List String}
    (nonempty : options ≠ []) : Yields Fit Allowed (fun _ => True) (choose text options) := by
  refine .bind (steady.record _) fun _ _ => .bind (.forIn fun entry _ => ?_) fun _ _ => ?_
  · exact .bind (steady.record _) fun _ _ => .pure trivial
  · constructor
    intro s fit
    rw [perform_get_bind]
    exact steady.chooseWithin nonempty _ fit (Nat.lt_succ_self _)

end Steady
end Rehearsal
