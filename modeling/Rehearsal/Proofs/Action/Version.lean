import Rehearsal.Action.Terraform
import Rehearsal.Proofs.Json.Parsed
import Rehearsal.Proofs.Json.Restored
import Rehearsal.Proofs.Play.Perform

/-! Whatever comes back from Terraform, the check of its version gives that version only if it is
stated and has the digits and dots of the required one. Otherwise the versions do not match, unless
the output holds a version or an integer that the check cannot read: `check_gives_iff_matching`. -/

namespace Rehearsal.Terraform

open Play

/-- That the command has succeeded and its output is an object with a version. -/
structure States (report : Report) (version : Value) : Prop where
  succeeded : report.succeeded = true
  output : ∃ entries, Json.parse report.output = .ok (.map entries) ∧
    Table.find? (.str "terraform_version") entries = some version

/-- That the check understands a report: a version that counts as present is a text, and no integer
of the output is too long. -/
structure Legible (report : Report) : Prop where
  text : ∀ version, States report version → version.isPresent = true → ∃ text, version = .str text
  short : report.succeeded = true → Json.parse report.output ≠ .error .integerTooLong

/-! ### The version that is present -/

theorem states_unique {report : Report} {version other : Value} (states : States report version)
    (again : States report other) : version = other := by
  obtain ⟨entries, parsed, found⟩ := states.output
  obtain ⟨entries', parsed', found'⟩ := again.output
  rw [parsed] at parsed'
  cases parsed'
  rw [found] at found'
  exact Option.some.inj found'

theorem States.parse_ne_error {report : Report} {version : Value} (states : States report version)
    (refusal : Json.Refusal) : Json.parse report.output ≠ .error refusal := by
  obtain ⟨entries, parsed, -⟩ := states.output
  rw [parsed]
  nofun

/-- Nothing that is read from JSON is inside itself, so an output with the version is an object. -/
theorem states_of_field? {report : Report} {output version : Value}
    (succeeded : report.succeeded = true) (parsed : Json.parse report.output = .ok output)
    (found : output.field? "terraform_version" = some version) : States report version := by
  refine ⟨succeeded, ?_⟩
  have flawless : output.Within fun _ => False := Json.parse_within parsed
  cases output with
  | map entries => exact ⟨entries, parsed, found⟩
  | again content => exact (flawless .endless rfl).elim
  | scalar _ => cases found
  | list _ => cases found
  | set _ => cases found
  | pair _ _ => cases found

theorem exists_plain {report : Report} {version : Value} (states : States report version) :
    ∃ text, version.plain = .ok text := by
  obtain ⟨entries, parsed, found⟩ := states.output
  obtain ⟨key, member, -⟩ := Table.mem_of_find?_eq_some found
  have flawless : (Value.map entries).Within fun _ => False := Json.parse_within parsed
  cases written : version.plain with
  | ok text => exact ⟨text, rfl⟩
  | error u =>
    have flaw := Value.hasFlaw_of_plain written
    exact (flawless u (Value.hasFlaw_of_entry member (.inr flaw))).elim

/-- How the question for the version that is present can end. -/
inductive Answered (report : Report) : Except Fault Value → Prop
  | version {version : Value} (states : States report version) : Answered report (.ok version)
  | unknown (m : VersionMismatch) (none : ∀ version, ¬States report version)
      (short : report.succeeded = true → Json.parse report.output ≠ .error .integerTooLong) :
      Answered report (.error (.mismatch m))
  | tooLong (succeeded : report.succeeded = true)
      (long : Json.parse report.output = .error .integerTooLong) : Answered report (.error .numeral)

theorem answered_localVersion (directory : String) (s : Session) :
    Answered (s.reports.headD {}) ((localVersion directory).perform s).1 := by
  rw [localVersion, perform_bind_ok (perform_execute ..)]
  generalize s.reports.headD {} = report
  dsimp only
  split
  · next failed =>
    have other : report.succeeded ≠ true := by simpa using failed
    simp only [Play.error, perform_bind_ok (perform_log ..)]
    exact .unknown _ (fun version states => other states.succeeded) (fun own => absurd own other)
  · next passed =>
    have succeeded : report.succeeded = true := by simpa using passed
    split
    · next long => exact .tooLong succeeded long
    · next malformed =>
      exact .unknown _ (fun version states => states.parse_ne_error _ malformed)
        (fun _ => by simp [malformed])
    · next output parsed =>
      split
      · next absent =>
        refine .unknown _ (fun version states => ?_) (fun _ => by simp [parsed])
        obtain ⟨entries, parsed', found⟩ := states.output
        rw [parsed] at parsed'
        cases parsed'
        have own : (Value.map entries).field? "terraform_version" = some version := found
        rw [own] at absent
        cases absent
      · next version found =>
        have states := states_of_field? succeeded parsed found
        obtain ⟨text, written⟩ := exists_plain states
        simp only [written, fit, orUnfit, adopt, perform_pure_bind, info,
          perform_bind_ok (perform_log ..), perform_pure]
        exact .version states

/-! ### The comparison -/

inductive Checked (required : String) (report : Report) : Except Fault Value → Prop
  | given {version : Value} (states : States report version)
      (same : normalizeValue version = .ok (normalizeVersion required)) :
      Checked required report (.ok version)
  | other (m : VersionMismatch) {version : Value} {digits : String} (states : States report version)
      (read : normalizeValue version = .ok digits) (differs : digits ≠ normalizeVersion required) :
      Checked required report (.error (.mismatch m))
  | unread {version : Value} (states : States report version)
      (wrong : normalizeValue version = .error .wrongKind) :
      Checked required report (.error .wrongKind)
  | unanswered {fault : Fault} (answered : Answered report (.error fault)) :
      Checked required report (.error fault)

theorem exists_normalizeValue_iff {version : Value} :
    (∃ digits, normalizeValue version = .ok digits) ↔
      (version.isPresent = true → ∃ text, version = .str text) := by
  unfold normalizeValue
  split
  · next text => exact ⟨fun _ _ => ⟨text, rfl⟩, fun _ => ⟨_, rfl⟩⟩
  · next other =>
    split
    · next present =>
      constructor
      · rintro ⟨_, read⟩
        cases read
      · intro text
        obtain ⟨text, same⟩ := text present
        exact absurd same (other text)
    · next absent => exact ⟨fun _ present => absurd present absent, fun _ => ⟨_, rfl⟩⟩

theorem wrongKind_of_normalizeValue {version : Value} {fault : Fault}
    (wrong : normalizeValue version = .error fault) : fault = .wrongKind := by
  unfold normalizeValue at wrong
  split at wrong
  · cases wrong
  · split at wrong <;> cases wrong
    rfl

theorem checked_check (required directory : String) (s : Session) :
    Checked required (s.reports.headD {}) ((check required directory).perform s).1 := by
  have answered := answered_localVersion directory s
  rw [check, perform_bind]
  generalize (localVersion directory).perform s = asked at answered ⊢
  rcases asked with ⟨fault | version, t⟩
  · exact .unanswered answered
  · cases answered with
    | version states =>
      obtain ⟨text, written⟩ := exists_plain states
      simp only [written, fit, orUnfit, adopt, perform_pure_bind]
      cases read : normalizeValue version with
      | error fault =>
        obtain rfl := wrongKind_of_normalizeValue read
        exact .unread states read
      | ok digits =>
        simp only [perform_pure_bind]
        split
        · next differs =>
          simp only [Play.error, perform_bind_ok (perform_log ..)]
          exact .other _ states read differs
        · next same =>
          rw [not_not.mp same] at read
          simp only [info, perform_bind_ok (perform_log ..)]
          exact .given states read

namespace Checked

variable {required : String} {report : Report} {outcome : Except Fault Value}

theorem eq_ok_iff (checked : Checked required report outcome) (version : Value) :
    outcome = .ok version ↔ States report version ∧
      normalizeValue version = .ok (normalizeVersion required) := by
  cases checked with
  | given states same =>
    constructor
    · rintro ⟨⟩
      exact ⟨states, same⟩
    · intro own
      rw [states_unique states own.1]
  | other m states read differs =>
    refine ⟨nofun, fun own => ?_⟩
    rw [← states_unique states own.1, read] at own
    exact absurd (Except.ok.inj own.2) differs
  | unread states wrong =>
    refine ⟨nofun, fun own => ?_⟩
    rw [← states_unique states own.1, wrong] at own
    cases own.2
  | unanswered answered =>
    refine ⟨nofun, fun own => ?_⟩
    cases answered with
    | unknown m none short => exact absurd own.1 (none version)
    | tooLong succeeded long => exact absurd long (own.1.parse_ne_error _)

theorem legible_of_states {version : Value} {digits : String} (states : States report version)
    (read : normalizeValue version = .ok digits) : Legible report where
  text other again := by
    rw [← states_unique states again]
    exact exists_normalizeValue_iff.mp ⟨digits, read⟩
  short _ := states.parse_ne_error _

theorem ends_iff (checked : Checked required report outcome) :
    (∃ version, outcome = .ok version) ∨ (∃ m, outcome = .error (.mismatch m)) ↔
      Legible report := by
  cases checked with
  | given states same => exact ⟨fun _ => legible_of_states states same, fun _ => .inl ⟨_, rfl⟩⟩
  | other m states read differs =>
    exact ⟨fun _ => legible_of_states states read, fun _ => .inr ⟨m, rfl⟩⟩
  | unread states wrong =>
    constructor
    · rintro (⟨_, ends⟩ | ⟨_, ends⟩) <;> cases ends
    · intro legible
      obtain ⟨digits, read⟩ := exists_normalizeValue_iff.mpr (legible.text _ states)
      rw [wrong] at read
      cases read
  | unanswered answered =>
    cases answered with
    | unknown m none short =>
      exact ⟨fun _ => ⟨fun version states => absurd states (none version), short⟩,
        fun _ => .inr ⟨m, rfl⟩⟩
    | tooLong succeeded long =>
      constructor
      · rintro (⟨_, ends⟩ | ⟨_, ends⟩) <;> cases ends
      · intro legible
        exact absurd long (legible.short succeeded)

end Checked

/-- Whatever a command reports, the check gives the stated version if its digits and dots are those
of the required one, and gives nothing else; it ends with a version or a mismatch just if the report
is legible. -/
theorem check_gives_iff_matching (required directory : String) (s : Session) :
    let report := s.reports.headD {}
    let outcome := ((check required directory).perform s).1
    (∀ version, outcome = .ok version ↔ States report version ∧
      normalizeValue version = .ok (normalizeVersion required)) ∧
    ((∃ version, outcome = .ok version) ∨ (∃ m, outcome = .error (.mismatch m)) ↔
      Legible report) := by
  intro report outcome
  have checked : Checked required report outcome := checked_check required directory s
  exact ⟨checked.eq_ok_iff, checked.ends_iff⟩

def numberReport : Report where
  output := "\x7b\"terraform_version\":1\x7d"

theorem states_numberReport : States numberReport (.int 1) := by
  have portable : (Value.map [(.str "terraform_version", .int 1)]).Portable :=
    .map (List.forall_mem_singleton.mpr ⟨_, rfl, by decide⟩) (List.pairwise_singleton ..)
      (List.forall_mem_singleton.mpr (.int (by decide +kernel)))
  have written : Json.text .compact (.map [(.str "terraform_version", .int 1)]) =
      .ok numberReport.output := by decide +kernel
  obtain ⟨text, same, parsed⟩ := portable.restored
  obtain rfl : numberReport.output = text := Except.ok.inj (written.symm.trans same)
  exact ⟨rfl, _, parsed, rfl⟩

/-- A version that is a number ends the check with neither a version nor a mismatch. -/
theorem check_refuses_number :
    ((check "1" "/repo").perform { reports := [numberReport] }).1 = .error .wrongKind := by
  have checked := checked_check "1" "/repo" { reports := [numberReport] }
  generalize ((check "1" "/repo").perform { reports := [numberReport] }).1 = outcome at checked ⊢
  have wrong : normalizeValue (.int 1) = .error .wrongKind := rfl
  cases checked with
  | given states same =>
    rw [states_unique states states_numberReport, wrong] at same
    cases same
  | other m states read differs =>
    rw [states_unique states states_numberReport, wrong] at read
    cases read
  | unread states wrong => rfl
  | unanswered answered =>
    cases answered with
    | unknown m none short => exact absurd states_numberReport (none _)
    | tooLong succeeded long => exact absurd long (states_numberReport.parse_ne_error _)

end Rehearsal.Terraform
