import Rehearsal.Proofs.Play.Acts
import Rehearsal.Proofs.Text.Cut
import Rehearsal.Proofs.Text.Standing
import Rehearsal.Proofs.Variable.Asked
import Rehearsal.Proofs.Variable.Reference

/-! A command and an output of a job that refer to an output of a step come to the value that is on
record for the job, and ask for one if there is none: `finds_of_substitute`,
`finds_of_resolveJobOutput`. -/

namespace Rehearsal

open Play

/-- That a session is another one with log records added. -/
def Session.Noted (s t : Session) : Prop :=
  ∃ records, (∀ event ∈ records, ∃ level message, event = Event.log level message) ∧
    t = { s with trace := records ++ s.trace }

namespace Session.Noted

variable {s t u : Session}

theorem refl (s : Session) : s.Noted s := ⟨[], nofun, rfl⟩

theorem log (level : Level) (message : String) (s : Session) :
    ∃ t, (Play.log level message).perform s = (.ok (), t) ∧ s.Noted t := by
  refine ⟨_, perform_log level message s, logged level message s, ?_, rfl⟩
  intro event member
  unfold logged at member
  split at member
  · exact ⟨_, _, List.mem_singleton.mp member⟩
  · cases member

theorem trans (first : s.Noted t) (second : t.Noted u) : s.Noted u := by
  obtain ⟨records, own, rfl⟩ := first
  obtain ⟨others, further, rfl⟩ := second
  refine ⟨others ++ records, List.forall_mem_append.mpr ⟨further, own⟩, ?_⟩
  simp only [List.append_assoc]

theorem context (noted : s.Noted t) : t.context = s.context := by
  obtain ⟨records, -, rfl⟩ := noted
  rfl

theorem questions (noted : s.Noted t) : t.questions = s.questions := by
  obtain ⟨records, own, rfl⟩ := noted
  have none : records.reverse.filterMap Event.question? = [] := by
    refine List.filterMap_eq_nil_iff.mpr fun event member => ?_
    obtain ⟨level, message, rfl⟩ := own event (List.mem_reverse.mp member)
    rfl
  rw [Session.questions_of_trace (s := s) rfl, none, List.append_nil]

end Session.Noted

/-! ### References -/

namespace Reference

variable {text id name : String}

theorem parts_of_step? (found : step? text = some (id, name)) :
    (∃ rest, text.toList = "steps.".toList ++ rest) ∧ ".outputs.".toList <:+: text.toList := by
  simp only [step?, output?, Option.bind_eq_bind, Option.bind_eq_some_iff] at found
  obtain ⟨rest, steps, ⟨owner, more⟩, segment, last, outputs, -⟩ := found
  have whole : text.toList = "steps.".toList ++ rest := Text.after?_eq_some steps
  refine ⟨⟨rest, whole⟩, ?_⟩
  have begins : ".outputs.".toList <+: more := ⟨last, (Text.after?_eq_some outputs).symm⟩
  exact begins.isInfix.trans ((suffix_of_segment? segment).trans ⟨_, whole.symm⟩).isInfix

theorem other_of_step? (found : step? text = some (id, name)) :
    Text.rest? "matrix." text = none ∧ job? text = none ∧ isJobResult text = false := by
  obtain ⟨⟨rest, whole⟩, -⟩ := parts_of_step? found
  rw [Text.rest?, job?, output?, isJobResult, whole]
  exact ⟨rfl, rfl, rfl⟩

theorem mentions_of_stepPlaceholder? (found : stepPlaceholder? text = some (id, name)) :
    Text.contains text "steps." = true ∧ Text.contains text ".outputs." = true := by
  simp only [stepPlaceholder?, Option.bind_eq_bind, Option.bind_eq_some_iff] at found
  obtain ⟨inside, braces, rest, steps, ⟨owner, more⟩, segment, last, outputs, -⟩ := found
  have whole : Text.trim text.toList <:+: text.toList := by
    obtain ⟨before, after, same, -⟩ := Text.exists_trim text.toList
    exact ⟨before, after, same.symm⟩
  have part : inside <:+ Text.trim text.toList := by
    have opened := Text.after?_eq_some braces
    split at opened
    · next s same => exact ⟨['$', '\x7b', '\x7b'], by rw [same, opened]; rfl⟩
    · exact ⟨['\x7b', '\x7b'], opened.symm⟩
  have tail : "steps.".toList ++ rest <:+ Text.trim text.toList := by
    rw [← Text.after?_eq_some steps]
    exact (List.dropWhile_suffix _).trans part
  have ends : ".outputs.".toList ++ last <:+ Text.trim text.toList := by
    rw [← Text.after?_eq_some outputs]
    exact (suffix_of_segment? segment).trans ((List.suffix_append ..).trans tail)
  exact ⟨Text.occurs_of_isInfix ((List.prefix_append ..).isInfix.trans (tail.isInfix.trans whole)),
    Text.occurs_of_isInfix ((List.prefix_append ..).isInfix.trans (ends.isInfix.trans whole))⟩

end Reference

/-! ### What is found -/

/-- The question for an output of a step that is not on record. -/
def stepOutputQuestion (text : String) : Question := ⟨stepOutputText text, "output-value", false⟩

/-- What a play finds that looks for an output: the value that is known, and else an answer. -/
inductive Finds (known : Option String) (text : String) (play : Play String) (s : Session) : Prop
  | known {value : String} {t : Session} (same : known = some value)
      (performed : play.perform s = (.ok value, t)) (noted : s.Noted t)
  | asked {t : Session} (unknown : known = none)
      (performed : play.perform s = (.ok (Text.trimmed (answer (stepOutputQuestion text) s)), t))
      (noted : ((Deed.ask (stepOutputQuestion text)).after s).Noted t)

theorem Finds.of_known {value text : String} {play : Play String} {s : Session}
    (finds : Finds (some value) text play s) :
    ∃ t, play.perform s = (.ok value, t) ∧ s.Noted t := by
  cases finds with
  | known same performed noted =>
    cases same
    exact ⟨_, performed, noted⟩
  | asked unknown => cases unknown

variable {s : Session} {id name : String}

theorem perform_freeText_stepOutput (text : String) (s : Session) :
    (freeText (stepOutputText text) "output-value").perform s =
      (.ok (Text.trimmed (answer (stepOutputQuestion text) s)),
        (Deed.ask (stepOutputQuestion text)).after s) := by
  rw [freeText, perform_bind_ok (Deed.perform_ask_eq_after ..)]
  rfl

theorem finds_of_resolveStepOutput {job : Scalar} {expression : String}
    (found : Reference.step? expression = some (id, name)) (s : Session) :
    Finds (s.context.stepOutput? job id name) expression (resolveStepOutput job expression) s := by
  cases known : s.context.stepOutput? job id name with
  | some value => exact .known rfl (by simp [resolveStepOutput, found, known]) (.refl s)
  | none =>
    refine .asked rfl ?_ (.refl _)
    rw [resolveStepOutput, perform_get_bind, found]
    dsimp only
    rw [known]
    exact perform_freeText_stepOutput expression s

theorem Finds.log {known : Option String} {text : String} {play : Play String}
    (finds : Finds known text play s) (message : String → String) :
    Finds known text (do let value ← play; info (message value); return value) s := by
  have logs (value : String) (t : Session) : ∃ u,
      (do info (message value); return value : Play String).perform t = (.ok value, u) ∧
        t.Noted u := by
    obtain ⟨u, told, noted⟩ := Session.Noted.log .info (message value) t
    exact ⟨u, by rw [info, perform_bind_ok told]; rfl, noted⟩
  cases finds with
  | @known value t same performed noted =>
    obtain ⟨u, told, later⟩ := logs value t
    exact .known same (by rw [perform_bind_ok performed, told]) (noted.trans later)
  | @asked t unknown performed noted =>
    obtain ⟨u, told, later⟩ := logs (Text.trimmed (answer (stepOutputQuestion text) s)) t
    exact .asked unknown (by rw [perform_bind_ok performed, told]) (noted.trans later)

theorem finds_of_substitute (scope : Scope) {expression : String}
    (found : Reference.step? expression = some (id, name)) (s : Session) :
    Finds (s.context.stepOutput? scope.job id name) expression (substitute scope expression) s := by
  obtain ⟨⟨rest, whole⟩, outputs⟩ := Reference.parts_of_step? found
  have unbound : scope.binding? expression = none := by
    rw [Scope.binding?, (Reference.other_of_step? found).1]
    rfl
  have starts : Text.startsWith expression "steps." = true := by
    rw [Text.startsWith, whole, Text.after?_append]
    rfl
  have contains : Text.contains expression ".outputs." = true := Text.occurs_of_isInfix outputs
  rw [substitute, unbound]
  simp only [starts, contains, Bool.and_true, if_true, found]
  exact (finds_of_resolveStepOutput found s).log fun value =>
    "Using step output: " ++ id ++ "." ++ name ++ " = \"" ++ value ++ "\""

theorem finds_of_resolveJobOutput (scope : Scope) {value : Value} {text : String}
    (stated : value.expressionText = .ok text)
    (found : Reference.stepPlaceholder? text = some (id, name)) (s : Session) :
    Finds (s.context.stepOutput? scope.job id name) text (resolveJobOutput scope value) s := by
  obtain ⟨steps, outputs⟩ := Reference.mentions_of_stepPlaceholder? found
  have fits : (fit value.expressionText : Play String) = pure text := by
    rw [stated]
    rfl
  cases known : s.context.stepOutput? scope.job id name with
  | some recorded =>
    obtain ⟨t, told, noted⟩ := Session.Noted.log .info ("Using step output for job output: " ++
      id ++ "." ++ name ++ " = \"" ++ recorded ++ "\"") s
    refine .known rfl ?_ noted
    rw [resolveJobOutput, fits, pure_bind, steps, outputs, found]
    simp only [Bool.and_self, if_true, perform_get_bind, known]
    rw [info, perform_bind_ok told]
    rfl
  | none =>
    refine .asked rfl ?_ (.refl _)
    rw [resolveJobOutput, fits, pure_bind, steps, outputs, found]
    simp only [Bool.and_self, if_true, perform_get_bind, known]
    exact perform_freeText_stepOutput text s

theorem perform_resolveJobOutput_of_stepPlaceholder? {scope : Scope} {value : Value}
    {text recorded : String} (stated : value.expressionText = .ok text)
    (found : Reference.stepPlaceholder? text = some (id, name))
    (output : s.context.stepOutput? scope.job id name = some recorded) :
    ∃ t, (resolveJobOutput scope value).perform s = (.ok recorded, t) ∧ s.Noted t := by
  have finds := finds_of_resolveJobOutput scope stated found s
  rw [output] at finds
  exact finds.of_known

end Rehearsal
