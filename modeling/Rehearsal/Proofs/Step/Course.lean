import Rehearsal.Proofs.Play.Aside

/-! A step with a command proposes it, asks whether it is to be executed, executes it, and asks
again if it failed. `Course` lists the ways in which this can go, and `course_of_run` says that
there is no other. -/

namespace Rehearsal

/-- Whether an answer about commands lets the run go on. -/
def Confirmation.grants : Confirmation → Bool
  | yes | all => true
  | _ => false

namespace Step

open Play

def commandQuestion : Question :=
  ⟨"Please review the command above. Do you trust this command and want to " ++
    "run it on your computer?" ++ Answers.confirmationEnd, "n", false⟩

def failureQuestion : Question :=
  ⟨"Command failed. Do you want to continue with the next step?" ++ Answers.confirmationEnd, "n",
    false⟩

theorem commandQuestion_confirms : Answers.isConfirmation commandQuestion.text = true :=
  isConfirmation_append _

theorem failureQuestion_confirms : Answers.isConfirmation failureQuestion.text = true :=
  isConfirmation_append _

/-! The questions begin with different letters. -/

theorem head_commandQuestion : commandQuestion.text.toList.head? = some 'P' := by
  have begins (ending : String) :
      ("Please review the command above. Do you trust this command and want to " ++
        "run it on your computer?" ++ ending).toList.head? = some 'P' := by simp
  exact begins _

theorem head_failureQuestion : failureQuestion.text.toList.head? = some 'C' := by
  have begins (ending : String) :
      ("Command failed. Do you want to continue with the next step?" ++ ending).toList.head? =
        some 'C' := by simp
  exact begins _

theorem failureQuestion_ne_commandQuestion : failureQuestion ≠ commandQuestion := by
  intro same
  have head := head_failureQuestion
  rw [same, head_commandQuestion] at head
  simp at head

def reply (q : Question) (s : Session) : Confirmation := Confirmation.parse (answer q s)

variable {q : Question} {s t u : Session}

/-- That a question about commands was granted: it is not asked when all commands are to be
executed, and an answer can have them all executed from now on. -/
inductive Granted (q : Question) (s t : Session) : Prop where
  | unasked (all : s.policy.runAllCommands = true) (rest : Aside s t)
  | once (some : s.policy.runAllCommands = false) (said : reply q s = .yes)
      (rest : Aside ((Deed.ask q).after s) t)
  | always (some : s.policy.runAllCommands = false) (said : reply q s = .all)
      (rest : Aside (Deed.allowCommands.after ((Deed.ask q).after s)) t)

/-- That a question about commands was answered with a refusal. -/
structure Refused (q : Question) (s t : Session) : Prop where
  some : s.policy.runAllCommands = false
  said : (reply q s).grants = false
  rest : Aside ((Deed.ask q).after s) t

theorem Granted.trans (granted : Granted q s t) (rest : Aside t u) : Granted q s u := by
  cases granted with
  | unasked all before => exact .unasked all (before.trans rest)
  | once some said before => exact .once some said (before.trans rest)
  | always some said before => exact .always some said (before.trans rest)

theorem Refused.trans (refused : Refused q s t) (rest : Aside t u) : Refused q s u :=
  { refused with rest := refused.rest.trans rest }

theorem Refused.policy (refused : Refused q s t) : t.policy = s.policy :=
  refused.rest.policy

def proposed (command directory : String) (s : Session) : Session :=
  Deed.all [.log .info ("Command: " ++ command), .log .info ("Working directory: " ++ directory)] s

/-- How a step ends once its command came back and its output was shown. -/
inductive Ended (succeeded : Bool) (s : Session) : Except Fault Outcome → Session → Prop where
  | success {t : Session} (good : succeeded = true) (rest : Aside s t) :
      Ended succeeded s (.ok ⟨.success, false⟩) t
  | goesOn {t : Session} (bad : succeeded = false) (granted : Granted failureQuestion s t) :
      Ended succeeded s (.ok ⟨.failed, false⟩) t
  | stops {t : Session} (bad : succeeded = false) (refused : Refused failureQuestion s t)
      (stays : reply failureQuestion s ≠ .quit) : Ended succeeded s (.ok ⟨.failed, true⟩) t
  | quits {t : Session} (bad : succeeded = false) (refused : Refused failureQuestion s t)
      (leaves : reply failureQuestion s = .quit) : Ended succeeded s (.error .quit) t

inductive Course (s : Session) : Except Fault Outcome → Session → Prop where
  | unproposed {result : Except Fault Outcome} {t : Session} (rest : Aside s t)
      (unfailed : ∀ outcome, result = .ok outcome → outcome.status ≠ .failed) : Course s result t
  | declined {command directory : String} {u t : Session} (before : Aside s u)
      (refused : Refused commandQuestion (proposed command directory u) t)
      (stays : reply commandQuestion (proposed command directory u) ≠ .quit) :
      Course s (.ok ⟨.skipped, false⟩) t
  | quit {command directory : String} {u t : Session} (before : Aside s u)
      (refused : Refused commandQuestion (proposed command directory u) t)
      (leaves : reply commandQuestion (proposed command directory u) = .quit) :
      Course s (.error .quit) t
  | unready {command directory : String} {fault : Fault} {u t : Session} (before : Aside s u)
      (granted : Granted commandQuestion (proposed command directory u) t) :
      Course s (.error fault) t
  | executed {command directory : String} {environment : Table String String}
      {result : Except Fault Outcome} {u v w t : Session} (before : Aside s u)
      (granted : Granted commandQuestion (proposed command directory u) v)
      (shown : Aside ((Deed.execute command directory environment).after v) w)
      (ended : Ended (v.reports.headD {}).succeeded w result t) : Course s result t

theorem Course.after (before : Aside s t) {result : Except Fault Outcome}
    (course : Course t result u) : Course s result u := by
  cases course with
  | unproposed rest unfailed => exact .unproposed (before.trans rest) unfailed
  | declined own refused stays => exact .declined (before.trans own) refused stays
  | quit own refused leaves => exact .quit (before.trans own) refused leaves
  | unready own granted => exact .unready (before.trans own) granted
  | executed own granted shown ended => exact .executed (before.trans own) granted shown ended

/-! ### From the step to its course -/

theorem perform_warning (message : String) (s : Session) :
    (warning message).perform s = (.ok (), (Deed.log .warning message).after s) :=
  Deed.perform_log_eq_after ..

theorem perform_error (message : String) (s : Session) :
    (error message).perform s = (.ok (), (Deed.log .error message).after s) :=
  Deed.perform_log_eq_after ..

theorem perform_confirm (text : String) (s : Session) :
    let q : Question := ⟨text ++ Answers.confirmationEnd, "n", false⟩
    (confirm text).perform s = (.ok (reply q s), (Deed.ask q).after s) := rfl

theorem perform_goesOn (answer : Confirmation) (s : Session) :
    (goesOn answer).perform s = match answer with
      | .quit => (.error .quit, (Deed.log .info "Quitting workflow execution").after s)
      | .all => (.ok true, Deed.all [.allowCommands, .log .info
          "[RUN ALL MODE ACTIVATED] Will auto-execute all remaining commands"] s)
      | .yes => (.ok true, s)
      | _ => (.ok false, s) := by
  cases answer with
  | quit => exact perform_bind_ok (Deed.perform_info_eq_after ..)
  | all => exact (perform_bind_ok rfl).trans (perform_bind_ok (Deed.perform_info_eq_after ..))
  | _ => rfl

theorem decided_of_goesOn {question : String} {result : Except Fault Bool}
    (some : s.policy.runAllCommands = false)
    (performed : ((confirm question) >>= goesOn).perform s = (result, t)) :
    let q : Question := ⟨question ++ Answers.confirmationEnd, "n", false⟩
    (result = .ok true ∧ Granted q s t) ∨
      (result = .ok false ∧ Refused q s t ∧ reply q s ≠ .quit) ∨
      (result = .error .quit ∧ Refused q s t ∧ reply q s = .quit) := by
  intro q
  have asked : (confirm question).perform s = (.ok (reply q s), (Deed.ask q).after s) :=
    perform_confirm ..
  rw [perform_bind_ok asked, perform_goesOn] at performed
  cases said : reply q s with
  | yes =>
    rw [said] at performed
    cases performed
    exact .inl ⟨rfl, .once some said (.refl _)⟩
  | all =>
    rw [said] at performed
    cases performed
    exact .inl ⟨rfl, .always some said (.log ..)⟩
  | quit =>
    rw [said] at performed
    cases performed
    exact .inr (.inr ⟨rfl, ⟨some, by rw [said]; rfl, .log ..⟩, rfl⟩)
  | no =>
    rw [said] at performed
    cases performed
    exact .inr (.inl ⟨rfl, ⟨some, by rw [said]; rfl, .refl _⟩, by simp⟩)
  | skip =>
    rw [said] at performed
    cases performed
    exact .inr (.inl ⟨rfl, ⟨some, by rw [said]; rfl, .refl _⟩, by simp⟩)

theorem decided_of_commandAllowed {result : Except Fault Bool}
    (performed : commandAllowed.perform s = (result, t)) :
    (result = .ok true ∧ Granted commandQuestion s t) ∨
      (result = .ok false ∧ Refused commandQuestion s t ∧ reply commandQuestion s ≠ .quit) ∨
      (result = .error .quit ∧ Refused commandQuestion s t ∧
        reply commandQuestion s = .quit) := by
  unfold commandAllowed at performed
  rw [perform_get_bind] at performed
  cases all : s.policy.runAllCommands with
  | true =>
    rw [all] at performed
    cases performed
    exact .inl ⟨rfl, .unasked all (.refl _)⟩
  | false =>
    rw [all] at performed
    exact decided_of_goesOn all performed

theorem ended_of_goesOnAfterFailure {result : Except Fault Bool}
    (performed : goesOnAfterFailure.perform s = (result, t)) :
    Ended false s (result.map fun goes => ⟨.failed, !goes⟩) t := by
  unfold goesOnAfterFailure at performed
  rw [perform_get_bind] at performed
  cases all : s.policy.runAllCommands with
  | true =>
    rw [all, if_pos rfl, perform_bind_ok (perform_warning ..)] at performed
    cases performed
    exact .goesOn rfl (.unasked all (.log ..))
  | false =>
    rw [all, if_neg Bool.false_ne_true, ← bind_assoc] at performed
    rcases perform_bind_cases performed with ⟨fault, failed, rfl⟩ | ⟨goes, u, decided, further⟩
    · rcases decided_of_goesOn all failed with ⟨ok, -⟩ | ⟨ok, -⟩ | ⟨same, refused, leaves⟩
      · cases ok
      · cases ok
      · cases same
        exact .quits rfl refused leaves
    · rcases decided_of_goesOn all decided with
        ⟨same, granted⟩ | ⟨same, refused, stays⟩ | ⟨fault, -⟩
      · cases same
        cases further
        exact .goesOn rfl granted
      · cases same
        rw [if_neg Bool.false_ne_true, perform_bind_ok (Deed.perform_info_eq_after ..)] at further
        cases further
        exact .stops rfl (refused.trans (.log ..)) stays
      · cases fault

/-! Output is shown and recorded without a fault. -/

theorem perform_showOutput (level : Level) (title text : String) (s : Session) :
    ∃ t, (showOutput level title text).perform s = (.ok (), t) ∧ Aside s t := by
  unfold showOutput
  split
  · exact ⟨s, rfl, .refl s⟩
  · rw [perform_get_bind]
    exact ⟨_, Deed.perform_log_eq_after .., .log ..⟩

theorem perform_logOutputs (outputs : Outputs) (s : Session) :
    ∃ t, (logOutputs outputs).perform s = (.ok (), t) ∧ Aside s t := by
  induction outputs generalizing s with
  | nil => exact ⟨s, rfl, .refl s⟩
  | cons output rest ih =>
    obtain ⟨name, value⟩ := output
    obtain ⟨t, performed, aside⟩ := ih ((Deed.log .info
      ("[OUTPUT] " ++ name ++ " = \"" ++ s.secrets.mask value ++ "\"")).after s)
    refine ⟨t, ?_, Aside.trans (.log ..) aside⟩
    unfold logOutputs
    rw [perform_bind_ok (perform_mask ..), perform_bind_ok (Deed.perform_info_eq_after ..),
      performed]

theorem perform_recordOutputs (job : Scalar) (stepId : String) (outputs : Outputs)
    (s : Session) : ∃ t, (recordOutputs job stepId outputs).perform s = (.ok (), t) ∧
      Aside s t := by
  have recorded : Aside s ((Deed.recordStep job stepId outputs).after s) :=
    .deed (show Deed.Aside (.recordStep job stepId outputs) from trivial) s
  obtain ⟨t, performed, aside⟩ := perform_logOutputs outputs
    ((Deed.recordStep job stepId outputs).after s)
  exact ⟨t, (perform_bind_ok (perform_modifyContext ..)).trans performed, recorded.trans aside⟩

theorem ended_of_finish {site : Site} {stepId : String} {report : Report}
    {result : Except Fault Outcome}
    (performed : (finish site stepId report).perform s = (result, t)) :
    ∃ u, Aside s u ∧ Ended report.succeeded u result t := by
  unfold finish at performed
  extract_lets outputs ended at performed
  have ends {u : Session} (further : (ended ()).perform u = (result, t)) :
      ∃ v, Aside u v ∧ Ended report.succeeded v result t := by
    dsimp only [ended] at further
    cases succeeded : report.succeeded with
    | true =>
      rw [succeeded, if_pos rfl, perform_bind_ok (Deed.perform_info_eq_after ..)] at further
      cases further
      exact ⟨_, .log .., .success rfl (.refl _)⟩
    | false =>
      rw [succeeded, if_neg Bool.false_ne_true, perform_bind_ok (perform_error ..)] at further
      rcases perform_bind_cases further with ⟨fault, failed, rfl⟩ | ⟨goes, u, decided, rest⟩
      · exact ⟨_, .log .., ended_of_goesOnAfterFailure failed⟩
      · cases rest
        exact ⟨_, .log .., ended_of_goesOnAfterFailure decided⟩
  obtain ⟨u, output, before⟩ := perform_showOutput .info "[OUTPUT]" report.output s
  obtain ⟨v, error, more⟩ := perform_showOutput .warning "[STDERR]" report.error u
  rw [perform_bind_ok output, perform_bind_ok error] at performed
  have before := before.trans more
  split at performed
  · obtain ⟨w, recorded, noted⟩ := perform_recordOutputs site.job stepId outputs v
    rw [perform_bind_ok recorded] at performed
    obtain ⟨x, last, ended⟩ := ends performed
    exact ⟨x, (before.trans noted).trans last, ended⟩
  · obtain ⟨x, last, ended⟩ := ends performed
    exact ⟨x, before.trans last, ended⟩

theorem course_of_bind {α : Type} {first : Play α} {next : α → Play Outcome}
    {result : Except Fault Outcome} (does : Does Deed.Inquires first)
    (performed : (first >>= next).perform s = (result, t))
    (rest : ∀ a u, (next a).perform u = (result, t) → Course u result t) : Course s result t := by
  rcases perform_bind_cases performed with ⟨fault, failed, rfl⟩ | ⟨a, u, ended, further⟩
  · exact .unproposed (.of_inquires does failed) (by simp)
  · exact .after (.of_inquires does ended) (rest a u further)

theorem course_of_runCommand {site : Site} {step command : Value} {stepId directory : String}
    {result : Except Fault Outcome}
    (performed : (runCommand site step command stepId directory).perform s = (result, t)) :
    Course s result t := by
  unfold runCommand at performed
  refine course_of_bind (fillValue_inquires ..) performed fun text u further => ?_
  rw [perform_get_bind] at further
  split at further
  · obtain ⟨v, tells, further⟩ := Aside.of_info further
    cases further
    exact .unproposed tells (by simp)
  rw [perform_bind_ok (Deed.perform_info_eq_after ..),
    perform_bind_ok (Deed.perform_info_eq_after ..)] at further
  rcases perform_bind_cases further with ⟨fault, failed, rfl⟩ | ⟨allowed, v, decided, rest⟩
  · rcases decided_of_commandAllowed failed with ⟨ok, -⟩ | ⟨ok, -⟩ | ⟨same, refused, leaves⟩
    · cases ok
    · cases ok
    · cases same
      exact .quit (.refl u) refused leaves
  rcases decided_of_commandAllowed decided with
    ⟨same, granted⟩ | ⟨same, refused, stays⟩ | ⟨fault, -⟩
  · cases same
    rw [if_pos rfl] at rest
    rcases perform_bind_cases rest with ⟨fault, failed, rfl⟩ | ⟨surroundings, w, ready, run⟩
    · exact .unready (.refl u) (granted.trans (.of_inquires (environment_inquires ..) failed))
    have granted := granted.trans (.of_inquires (environment_inquires ..) ready)
    rw [perform_bind_ok (Deed.perform_execute_eq_after ..)] at run
    obtain ⟨shown, aside, ended⟩ := ended_of_finish run
    exact .executed (.refl u) granted aside ended
  · cases same
    rw [if_neg Bool.false_ne_true, perform_bind_ok (Deed.perform_info_eq_after ..)] at rest
    cases rest
    exact .declined (.refl u) (refused.trans (.log ..)) stays
  · cases fault

def IsCommand (step : Value) : Prop := ∃ command, member "run" step = .ok command ∧ command ≠ .null

theorem course_of_perform {site : Site} {step : Value} {name stepId : String}
    {result : Except Fault Outcome} (stated : IsCommand step)
    (performed : (perform site step name stepId).perform s = (result, t)) :
    Course s result t := by
  obtain ⟨command, found, some⟩ := stated
  unfold perform at performed
  refine course_of_bind (directory_inquires ..) performed fun directory u further => ?_
  rw [found, perform_bind_ok (perform_adopt ..)] at further
  refine course_of_bind (.adopt _) further fun action v further => ?_
  split at further
  · exact absurd rfl some
  · exact course_of_runCommand further

theorem course_of_run {site : Site} {step : Value} {index : Nat} {result : Except Fault Outcome}
    (stated : IsCommand step) (performed : (run site step index).perform s = (result, t)) :
    Course s result t := by
  unfold run at performed
  refine course_of_bind (.adopt _) performed fun name u further => ?_
  refine course_of_bind (.adopt _) further fun stepId v further => ?_
  obtain ⟨w, titles, further⟩ := Aside.of_info further
  refine .after titles ?_
  refine course_of_bind (.adopt _) further fun condition x further => ?_
  refine course_of_bind (Condition.holds_inquires ..) further fun holds y further => ?_
  split at further
  · exact course_of_perform stated further
  · refine course_of_bind (.fit _) further fun text z further => ?_
    obtain ⟨last, tells, further⟩ := Aside.of_info further
    cases further
    exact .unproposed tells (by simp)

end Step
end Rehearsal
