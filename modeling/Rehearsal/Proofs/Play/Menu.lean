import Rehearsal.Proofs.Play.Perform
import Rehearsal.Session.Prompt

/-! The user is asked until an answer names an option, by its number or by its text. The only
answers that cannot be read are those that are made of digits and are no number, or one too long to
be read: `perform_choose`. -/

namespace Rehearsal.Menu

open Play

/-! ### Answers -/

/-- That an answer is a number of readable length if it is made of digits. -/
def Legible (typed : String) : Prop :=
  typed ≠ "" → typed.toList.all Text.isDigit = true →
    (Text.decimalValue? typed.toList).isSome = true ∧ typed.toList.length ≤ Numeral.maxDigits

/-- That an answer names an option: by the number of the option, or by its text if it is not the
number of one. -/
inductive Names (options : List String) (typed : String) : String → Prop
  | number {n : Nat} {option : String} (numeral : Text.decimalValue? typed.toList = some (n + 1))
      (listed : options[n]? = some option) : Names options typed option
  | text (other : ∀ n, Text.decimalValue? typed.toList = some (n + 1) → options.length ≤ n)
      (listed : typed ∈ options) : Names options typed typed

section

variable {options : List String} {typed option : String}

theorem Names.mem (names : Names options typed option) : option ∈ options := by
  cases names with
  | number numeral listed => exact List.mem_of_getElem? listed
  | text other listed => exact listed

theorem all_isDigit_of_decimalValue? {s : List Char} {n : Nat}
    (numeral : Text.decimalValue? s = some n) : s ≠ [] ∧ s.all Text.isDigit = true := by
  unfold Text.decimalValue? at numeral
  split at numeral
  · cases numeral
  · next nonempty =>
    refine ⟨fun empty => nonempty (List.isEmpty_iff.mpr empty), ?_⟩
    obtain ⟨values, read, -⟩ := Option.map_eq_some_iff.mp numeral
    clear numeral nonempty
    induction s generalizing values with
    | nil => rfl
    | cons c s ih =>
      rw [List.mapM_cons] at read
      obtain ⟨value, own, read⟩ := Option.bind_eq_some_iff.mp read
      obtain ⟨rest, others, -⟩ := Option.bind_eq_some_iff.mp read
      have digit : Text.isDigit c = true := by simp [Text.isDigit, Text.isDecimalDigit, own]
      rw [List.all_cons, digit, ih rest others]
      rfl

def byText? (options : List String) (typed : String) : Option String :=
  if options.contains typed then some typed else none

theorem byText?_eq_some_iff : byText? options typed = some option ↔
    option = typed ∧ typed ∈ options := by
  unfold byText?
  split <;> simp_all [eq_comm]

theorem chosen?_of_numeral {n : Nat} (numeral : Text.decimalValue? typed.toList = some n)
    (short : typed.toList.length ≤ Numeral.maxDigits) :
    chosen? options typed =
      .ok (if 1 ≤ n ∧ n ≤ options.length then options[n - 1]? else byText? options typed) := by
  obtain ⟨nonempty, digits⟩ := all_isDigit_of_decimalValue? numeral
  have made : (!typed.toList.isEmpty && typed.toList.all Text.isDigit) = true := by
    rw [digits, Bool.and_true, Bool.not_eq_true', List.isEmpty_eq_false_iff]
    exact nonempty
  have fits : ¬Numeral.maxDigits < typed.toList.length := Nat.not_lt.mpr short
  unfold chosen? byText?
  simp only [made, if_true, numeral, fits, if_false]
  split <;> rfl

theorem chosen?_of_other (other : ¬(typed ≠ "" ∧ typed.toList.all Text.isDigit = true)) :
    chosen? options typed = .ok (byText? options typed) := by
  have made : ¬(!typed.toList.isEmpty && typed.toList.all Text.isDigit) = true := by
    simpa using other
  unfold chosen? byText?
  simp only [made, Bool.false_eq_true, if_false]
  rfl

theorem chosen?_of_illegible (illegible : ¬Legible typed) :
    chosen? options typed = .error .numeral := by
  unfold Legible at illegible
  simp only [Classical.not_imp, not_and] at illegible
  obtain ⟨nonempty, digits, unread⟩ := illegible
  have made : (!typed.toList.isEmpty && typed.toList.all Text.isDigit) = true := by
    simpa [digits] using nonempty
  unfold chosen?
  simp only [made, if_true]
  cases numeral : Text.decimalValue? typed.toList with
  | none => rfl
  | some n =>
    have long : Numeral.maxDigits < typed.toList.length :=
      Nat.not_le.mp (unread (by rw [numeral]; rfl))
    simp only [long, if_true]
    rfl

/-- That an answer can be read and names no option. -/
structure Refused (options : List String) (typed : String) : Prop where
  legible : Legible typed
  unnamed : ∀ option, ¬Names options typed option

inductive Reading (options : List String) (typed : String) : Except Fault (Option String) → Prop
  | chosen {option : String} (legible : Legible typed) (names : Names options typed option) :
      Reading options typed (.ok (some option))
  | refused (refused : Refused options typed) : Reading options typed (.ok none)
  | unreadable (illegible : ¬Legible typed) : Reading options typed (.error .numeral)

theorem reading_of_byText? (legible : Legible typed)
    (other : ∀ n, Text.decimalValue? typed.toList = some (n + 1) → options.length ≤ n) :
    Reading options typed (.ok (byText? options typed)) := by
  cases found : byText? options typed with
  | some option =>
    obtain ⟨rfl, listed⟩ := byText?_eq_some_iff.mp found
    exact .chosen legible (.text other listed)
  | none =>
    refine .refused ⟨legible, ?_⟩
    rintro option (⟨numeral, listed⟩ | ⟨-, listed⟩)
    · obtain ⟨within, -⟩ := List.getElem?_eq_some_iff.mp listed
      exact absurd within (Nat.not_lt.mpr (other _ numeral))
    · rw [byText?_eq_some_iff.mpr ⟨rfl, listed⟩] at found
      cases found

theorem reading (options : List String) (typed : String) :
    Reading options typed (chosen? options typed) := by
  by_cases legible : Legible typed
  · cases numeral : Text.decimalValue? typed.toList with
    | none =>
      have other : ¬(typed ≠ "" ∧ typed.toList.all Text.isDigit = true) := by
        rintro ⟨nonempty, digits⟩
        have read := (legible nonempty digits).1
        rw [numeral] at read
        cases read
      rw [chosen?_of_other other]
      exact reading_of_byText? legible fun n same => by rw [numeral] at same; cases same
    | some n =>
      obtain ⟨nonempty, digits⟩ := all_isDigit_of_decimalValue? numeral
      have short := (legible (fun empty => nonempty (by rw [empty]; rfl)) digits).2
      rw [chosen?_of_numeral numeral short]
      split
      · next within =>
        obtain ⟨n, rfl⟩ := Nat.exists_eq_add_of_le' within.1
        have listed : options[n]? = some options[n] := List.getElem?_eq_getElem within.2
        rw [Nat.add_sub_cancel, listed]
        exact .chosen legible (.number numeral listed)
      · next outside =>
        refine reading_of_byText? legible fun m same => ?_
        cases numeral.symm.trans same
        omega
  · rw [chosen?_of_illegible legible]
    exact .unreadable legible

end

/-! ### Turns -/

def question : Question := ⟨"Select", "1", false⟩

/-- The answer to the question in one of several turns. An empty one chooses the first option, and
so do all that come after the given ones. -/
def answer (a : Answers) (turn : Nat) : String :=
  let given := a.texts.getD turn ""
  if given = "" then question.default else given

def typed (a : Answers) (turn : Nat) : String := Text.trimmed (answer a turn)

def hint (options : List String) : String := "Please choose 1-" ++ toString options.length

/-- What is seen of turns in which the answers are refused and of the turn after them. -/
def turns (options : List String) (a : Answers) (n : Nat) : List Event :=
  ((List.range n).flatMap fun i => [.ask question (answer a i), .echo (hint options)]) ++
    [.ask question (answer a n)]

/-- The session after turns of which all but the last were refused. -/
def after (options : List String) (n : Nat) (s : Session) : Session :=
  { s with
    answers := { s.answers with texts := s.answers.texts.drop (n + 1) }
    trace := (turns options s.answers n).reverse ++ s.trace }

/-- How asking ends: with the option that is named, or with an answer that cannot be read. -/
inductive Ending (options : List String) (typed : String) : Except Fault String → Prop
  | chosen {option : String} (legible : Legible typed) (names : Names options typed option) :
      Ending options typed (.ok option)
  | unreadable (illegible : ¬Legible typed) : Ending options typed (.error .numeral)

variable {options : List String}

theorem next_question (a : Answers) :
    (a.next question.text).2 = { a with texts := a.texts.tail } ∧
      (a.next question.text).1 = a.texts.getD 0 "" := by
  have free : Answers.isConfirmation question.text = false := by decide
  rw [Answers.next, free]
  obtain ⟨confirms, confirmRest, texts⟩ := a
  cases texts with
  | nil => exact ⟨rfl, rfl⟩
  | cons first rest => exact ⟨rfl, rfl⟩

theorem answer_tail (a : Answers) (turn : Nat) :
    answer { a with texts := a.texts.tail } turn = answer a (turn + 1) := by
  simp only [answer, List.getD_eq_getElem?_getD, List.getElem?_tail]

theorem turns_succ (options : List String) (a : Answers) (n : Nat) :
    turns options a (n + 1) = .ask question (answer a 0) :: .echo (hint options) ::
      turns options { a with texts := a.texts.tail } n := by
  simp only [turns, List.range_succ_eq_map, List.flatMap_cons, List.flatMap_map, answer_tail,
    List.cons_append, List.nil_append]

theorem perform_ask_question (s : Session) :
    (ask question).perform s = (.ok (answer s.answers 0),
      { s with
        answers := { s.answers with texts := s.answers.texts.tail }
        trace := .ask question (answer s.answers 0) :: s.trace }) := by
  obtain ⟨rest, given⟩ := next_question s.answers
  rw [perform_ask, Play.answer, rest, given]
  rfl

theorem nonempty_of_refused (nonempty : options ≠ []) {a : Answers}
    (refused : Refused options (typed a 0)) : a.texts ≠ [] := by
  intro empty
  have one : typed a 0 = "1" := by
    rw [typed, answer, empty]
    decide
  obtain ⟨first, rest, rfl⟩ := List.exists_cons_of_ne_nil nonempty
  refine refused.unnamed first ?_
  rw [one]
  exact .number (n := 0) (by decide) rfl

def refuse (options : List String) (s : Session) : Session :=
  { s with
    answers := { s.answers with texts := s.answers.texts.tail }
    trace := .echo (hint options) :: .ask question (answer s.answers 0) :: s.trace }

theorem typed_refuse (options : List String) (s : Session) (turn : Nat) :
    typed (refuse options s).answers turn = typed s.answers (turn + 1) :=
  congrArg Text.trimmed (answer_tail ..)

theorem after_succ (options : List String) (n : Nat) (s : Session) :
    after options (n + 1) s = after options n (refuse options s) := by
  simp only [after, refuse, turns_succ, List.drop_tail, List.reverse_cons, List.append_assoc,
    List.cons_append, List.nil_append]

theorem perform_chooseWithin (nonempty : options ≠ []) (tries : Nat) (s : Session)
    (enough : s.answers.texts.length < tries) :
    ∃ n, (∀ i < n, Refused options (typed s.answers i)) ∧
      ∃ result, Ending options (typed s.answers n) result ∧
        (chooseWithin options tries).perform s = (result, after options n s) := by
  induction tries generalizing s with
  | zero => cases enough
  | succ tries ih =>
    have asked := perform_ask_question s
    have read := reading options (typed s.answers 0)
    unfold chooseWithin
    rw [show (⟨"Select", "1", false⟩ : Question) = question from rfl, perform_bind_ok asked,
      show Text.trimmed (answer s.answers 0) = typed s.answers 0 from rfl]
    generalize chosen? options (typed s.answers 0) = outcome at read
    cases read with
    | chosen legible names =>
      exact ⟨0, nofun, _, .chosen legible names, by simp [after, turns, adopt]⟩
    | unreadable illegible =>
      exact ⟨0, nofun, _, .unreadable illegible, by simp [after, turns, adopt]⟩
    | refused refused =>
      have fewer : s.answers.texts.tail.length < tries := by
        have given := List.length_pos_iff.mpr (nonempty_of_refused nonempty refused)
        rw [List.length_tail]
        omega
      obtain ⟨n, before, result, ending, performed⟩ := ih (refuse options s) fewer
      refine ⟨n + 1, ?_, result, typed_refuse options s n ▸ ending, ?_⟩
      · intro i within
        cases i with
        | zero => exact refused
        | succ i => exact typed_refuse options s i ▸ before i (Nat.lt_of_succ_lt_succ within)
      · rw [perform_bind_ok (perform_adopt ..), after_succ, ← performed]
        dsimp only
        rw [echo, perform_bind_ok (perform_record ..)]
        rfl

/-! ### Menus -/

def lines (text : String) (options : List String) : List Event :=
  .echo text :: options.zipIdx.map fun (option, i) =>
    .echo ("  " ++ toString (i + 1) ++ ". " ++ option)

theorem perform_forIn_record {α : Type} (items : List α) (event : α → Event) (s : Session) :
    (ForIn.forIn items PUnit.unit fun a _ => do
        record (event a)
        return ForInStep.yield PUnit.unit : Play PUnit).perform s =
      (.ok ⟨⟩, { s with trace := (items.map event).reverse ++ s.trace }) := by
  induction items generalizing s with
  | nil => rfl
  | cons a rest ih =>
    rw [List.forIn_cons, bind_assoc, perform_bind_ok (perform_record ..), pure_bind]
    dsimp only
    rw [ih]
    simp

theorem perform_choose (nonempty : options ≠ []) (text : String) (s : Session) :
    ∃ n, (∀ i < n, Refused options (typed s.answers i)) ∧
      ∃ result, Ending options (typed s.answers n) result ∧
        (choose text options).perform s = (result,
          after options n { s with trace := (lines text options).reverse ++ s.trace }) := by
  let t : Session := { s with trace := (lines text options).reverse ++ s.trace }
  obtain ⟨n, before, result, ending, performed⟩ :=
    perform_chooseWithin nonempty (t.answers.texts.length + 1) t (Nat.lt_succ_self _)
  refine ⟨n, before, result, ending, ?_⟩
  rw [← performed, choose, echo, perform_bind_ok (perform_record ..)]
  unfold echo
  refine (perform_bind_ok (perform_forIn_record options.zipIdx (fun (option, i) =>
    .echo ("  " ++ toString (i + 1) ++ ". " ++ option)) _)).trans ?_
  rw [perform_get_bind]
  simp [t, lines]

end Rehearsal.Menu
