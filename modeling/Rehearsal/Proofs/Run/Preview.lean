import Rehearsal.Proofs.Job.Preview
import Rehearsal.Proofs.Json.Restored

/-! A dry run makes the same passes over the jobs as a real one, so that it comes to the same, asks
the same questions, and previews what the real one executes: `dry_runs_preview_the_run`. -/

namespace Rehearsal.Run

open Play

variable {start : Session} {workflow jobs : Mapping} {root : String}

/-- The environments that a workflow states: the one for all steps and those of single steps. -/
def environments (workflow : Mapping) : List Value :=
  (Table.find? (.str "env") workflow).toList ++
    ((Run.jobs workflow).toOption.getD []).flatMap fun entry =>
      (Job.statedSteps (entry.2.mapping?.getD [])).filterMap fun step =>
        (Step.member "env" step).toOption

/-! ### Passes -/

theorem visit_rehearses (around : Step.PlainWorkflow workflow) {job : Value}
    (plain : Job.Plain (job.mapping?.getD [])) (root : String) (name : Scalar) :
    Rehearses start (visit workflow root name job) (visit workflow root name job) := by
  refine .get_bind (fun previews => by rw [previews.ledger]) fun s => ?_
  dsimp only
  split
  · refine .bind (.adopt _) fun needed => ?_
    split
    · exact .bind (Job.run_rehearses around plain root name) fun _ => .modifyLedger _
    · exact .pure _
  · exact .pure _

theorem pass_rehearses (around : Step.PlainWorkflow workflow)
    (plain : ∀ entry ∈ jobs, Job.Plain (entry.2.mapping?.getD [])) (root : String) :
    Rehearses start (pass workflow root jobs) (pass workflow root jobs) := by
  induction jobs with
  | nil => exact .pure _
  | cons entry rest ih =>
    obtain ⟨own, others⟩ := List.forall_mem_cons.mp plain
    exact .bind (visit_rehearses around own root entry.1) fun _ => ih others

theorem reportStuck_rehearses (jobs : Mapping) :
    Rehearses start (reportStuck jobs) (reportStuck jobs) := by
  refine .get_bind (fun previews => by rw [previews.ledger]) fun s => ?_
  exact .bind (.adopt _) fun _ => .bind (.log ..) fun _ => .log ..

theorem passesFrom_grows (passes : Grows (pass workflow root jobs))
    (reports : Grows (reportStuck jobs)) (s : Session) :
    ∃ new, (passesFrom workflow root jobs s).2.trace = new ++ s.trace := by
  fun_induction passesFrom workflow root jobs s with
  | case1 s left fault u failed =>
    have grown := passes.trace s
    rwa [failed] at grown
  | case2 s left u passed more ih =>
    obtain ⟨new, added⟩ := passes.trace s
    obtain ⟨later, last⟩ := ih
    rw [passed] at added
    exact ⟨later ++ new, by rw [last, added, List.append_assoc]⟩
  | case3 s left u passed same =>
    obtain ⟨new, added⟩ := passes.trace s
    obtain ⟨later, last⟩ := reports.trace u
    rw [passed] at added
    exact ⟨later ++ new, by rw [last, added, List.append_assoc]⟩
  | case4 s all => exact ⟨[], rfl⟩

/-- The induction is on the passes of the real run. As both runs have the same jobs done, the dry
run makes the same ones. -/
theorem passesFrom_rehearses (around : Step.PlainWorkflow workflow)
    (plain : ∀ entry ∈ jobs, Job.Plain (entry.2.mapping?.getD [])) (root : String) :
    Rehearses start (ofPerform (passesFrom workflow root jobs))
      (ofPerform (passesFrom workflow root jobs)) := by
  have passes : Rehearses start (pass workflow root jobs) (pass workflow root jobs) :=
    pass_rehearses around plain root
  have reports : Rehearses start (reportStuck jobs) (reportStuck jobs) :=
    reportStuck_rehearses jobs
  have grows := passesFrom_grows passes.grows reports.grows
  refine ⟨⟨grows⟩, fun {s t} previews serves => ?_⟩
  rw [perform_ofPerform] at serves ⊢
  rw [perform_ofPerform]
  have grown {s t u : Session} {result : Except Fault Unit} (previews : Previews start s t)
      (passed : (pass workflow root jobs).perform s = (result, u)) :
      ∃ old, u.trace = old ++ start.trace := by
    have added := passes.grows.trace s
    rw [passed] at added
    exact previews.grown_of added
  fun_induction passesFrom workflow root jobs s generalizing t with
  | case1 s left fault u failed =>
    obtain ⟨v, played, after⟩ := passes.ends previews failed serves
    rw [passesFrom, previews.ledger, if_pos left, played]
    exact ⟨rfl, after⟩
  | case2 s left u passed more ih =>
    obtain ⟨v, played, after⟩ := passes.ends previews passed
      (serves.before (grown previews passed) (grows u) nofun)
    rw [passesFrom, previews.ledger, if_pos left, played]
    dsimp only
    rw [after.ledger, if_pos more]
    exact ih after serves
  | case3 s left u passed stays =>
    obtain ⟨v, played, after⟩ := passes.ends previews passed
      (serves.before (grown previews passed) (reports.grows.trace u) nofun)
    rw [passesFrom, previews.ledger, if_pos left, played]
    dsimp only
    rw [after.ledger, if_neg stays]
    exact reports.follows after serves
  | case4 s all =>
    rw [passesFrom, previews.ledger, if_neg all]
    exact ⟨rfl, previews⟩

/-! ### Runs -/

theorem openLedger_rehearses (workflow : Mapping) :
    Rehearses start (openLedger workflow) (openLedger workflow) :=
  .bind (.modifyLedger _) fun _ => .bind (.fit _) fun _ => .modifyLedger _

theorem detectToolchain_rehearses : Rehearses start detectToolchain detectToolchain := by
  refine .get_bind (fun previews => ?_) fun s => ?_
  · obtain ⟨reports, trace, rfl⟩ := previews.same
    rfl
  split
  · refine .bind (.modifyContext _) fun _ => ?_
    split
    · exact .info _
    · exact .info _
  · exact .pure _

theorem stop_rehearses (fault : Fault) : Rehearses start (stop fault) (stop fault) := by
  unfold stop
  split
  · exact .bind (.info _) fun _ => .bind (.modifyLedger _) fun _ => .throw _
  · exact .throw _

theorem execute_rehearses (plain : ∀ environment ∈ environments workflow, Step.Plain environment)
    (root : String) : Rehearses start (execute workflow root) (execute workflow root) := by
  have runs : Rehearses start (runJobs workflow (Path.tidy root))
      (runJobs workflow (Path.tidy root)) := by
    refine .bind_adopt fun entries stated => passesFrom_rehearses ?_ ?_ _
    · intro environment found
      exact plain environment (List.mem_append_left _ (Option.mem_toList.mpr found))
    · intro entry entered step listed environment found
      refine plain environment (List.mem_append_right _ (List.mem_flatMap.mpr ⟨entry, ?_, ?_⟩))
      · rwa [stated]
      · exact List.mem_filterMap.mpr ⟨step, listed, by rw [found]; rfl⟩
  exact .bind (openLedger_rehearses workflow) fun _ => .bind detectToolchain_rehearses fun _ =>
    .tryCatch runs stop_rehearses fun _ _ => rfl

/-! ### Previews -/

/-- That a dry run tells what a real one comes to. -/
structure Foretells (s : Session) (dry real : Except Fault Unit × Session) : Prop where
  result : dry.1 = real.1
  /-- But for the reports that are left, the events and that it is dry, the one ends as the other:
  with the same results, outputs and values on record. -/
  same : ∃ reports trace,
    dry.2 = { real.2.dry with reports, trace }
  questions : dry.2.questions = real.2.questions
  mirrors : Mirrors s.logging s.trace real.2.trace dry.2.trace (s.commands real.2).reverse
  /-- The previews can be read off the log, if it shows them and nothing else looks like one. -/
  previewed : s.logging.threshold.weight ≤ Level.info.weight → s.logging.masked = false →
    s.previewed real.2 = [] →
    s.previewed dry.2 = (s.commands real.2).map fun command => previewText command.1 command.2

theorem Foretells.of_previews {s : Session} {dry real : Except Fault Unit × Session}
    (result : dry.1 = real.1) (previews : Previews s real.2 dry.2)
    (grown : ∃ new, dry.2.trace = new ++ s.trace) : Foretells s dry real := by
  obtain ⟨pairs, mirrors⟩ := previews.mirrors
  obtain ⟨new, added⟩ := grown
  obtain ⟨old, earlier⟩ := mirrors.grows
  have ran : s.commands real.2 = pairs.reverse := by
    have all := mirrors.ran
    rw [earlier, List.filterMap_append] at all
    rw [Session.commands, Session.since_eq earlier, List.append_cancel_right all]
  refine ⟨result, previews.same, ?_, ?_, fun kept plain unforged => ?_⟩
  · rw [Session.questions, Session.questions, List.filterMap_reverse, List.filterMap_reverse,
      mirrors.questions]
  · rwa [ran, List.reverse_reverse]
  · rw [Session.previewed, Session.since_eq earlier, List.reverse_eq_nil_iff,
      List.filterMap_eq_nil_iff] at unforged
    have all := mirrors.previewed kept plain fun others same => ?_
    · rw [added, List.filterMap_append] at all
      rw [Session.previewed, Session.since_eq added, List.append_cancel_right all, ran,
        List.map_reverse]
    · obtain rfl := List.append_cancel_right (earlier.symm.trans same)
      exact unforged

/-- **Previews.** A dry run comes to the same as a real run in which all commands are to be
executed, all that is executed comes back as it should, and mocks do not look at whether the run is
dry, provided that the variables of commands are constant texts under keys that have texts: it ends
in the same way, with the same results, outputs and kept values, asks the same questions, and
previews the commands that the real run executes for steps, in the same directories. -/
theorem dry_runs_preview_the_run {s : Session} (live : s.policy.dryRun = false)
    (allowed : s.policy.runAllCommands = true) (impartial : s.registry.Impartial)
    {workflow : Mapping}
    (constant : ∀ environment ∈ environments workflow, environment.Constant)
    (named : ∀ environment ∈ environments workflow, environment.Named) (root : String)
    (serves : Serves s ((execute workflow root).perform s).1
      ((execute workflow root).perform s).2) :
    Foretells s ((execute workflow root).perform s.dry) ((execute workflow root).perform s) := by
  have rehearses : Rehearses s (execute workflow root) (execute workflow root) :=
    execute_rehearses (fun environment own => ⟨constant environment own, named environment own⟩)
      root
  obtain ⟨result, previews⟩ := rehearses.follows (.refl live allowed impartial) serves
  exact .of_previews result previews (rehearses.grows.trace _)

def versionReport : Report where
  output := "\x7b\"terraform_version\":\"1.5.0\"\x7d"

theorem stated_versionReport : Terraform.Stated versionReport where
  succeeded := rfl
  version := by
    have portable : (Value.map [(.str "terraform_version", .str "1.5.0")]).Portable :=
      .map (List.forall_mem_singleton.mpr ⟨_, rfl, by decide⟩) (List.pairwise_singleton ..)
        (List.forall_mem_singleton.mpr (.str (by decide)))
    have written : Json.text .compact (.map [(.str "terraform_version", .str "1.5.0")]) =
        .ok versionReport.output := by decide +kernel
    obtain ⟨text, same, parsed⟩ := portable.restored
    obtain rfl : versionReport.output = text := Except.ok.inj (written.symm.trans same)
    exact ⟨_, .str "1.5.0", "1.5.0", _, parsed, rfl, rfl, rfl⟩

/-- A job whose steps are a command, a setup of Terraform, another action and a placeholder. -/
def variedSteps : Mapping :=
  [(.str "on", .str "push"), (.str "env", .map [(.str "STAGE", .str "test")]),
    (.str "jobs", .map [(.str "a", .map [(.str "runs-on", .str "x"), (.str "steps", .list [
      .map [(.str "run", .str "make"), (.str "env", .map [(.str "MODE", .str "fast")])],
      .map [(.str "uses", .str "hashicorp/setup-terraform@v3"),
        (.str "with", .map [(.str "terraform_version", .str "1.5.0")])],
      .map [(.str "uses", .str "acme/deploy@v1")],
      .map [(.str "name", .str "wait")]])])])]

/-- A session for a real run in which only jobs are confirmed and one action has a mock. -/
def foretold : Session where
  policy := { runAllCommands := true }
  registry := { known := [("acme/deploy", some { respond := fun _ _ => .ok (.map []) })] }
  reports := [{}, versionReport]

theorem environments_variedSteps : environments variedSteps =
    [.map [(.str "STAGE", .str "test")], .map [(.str "MODE", .str "fast")], .null, .null,
      .null] :=
  rfl

theorem impartial_foretold : foretold.registry.Impartial := by
  refine ⟨fun entry member m same => ?_, List.forall_mem_nil _⟩
  obtain rfl := List.mem_singleton.mp member
  cases same
  exact fun _ _ => rfl

theorem serves_variedSteps : Serves foretold ((execute variedSteps "/").perform foretold).1
    ((execute variedSteps "/").perform foretold).2 := by
  have ended : ((execute variedSteps "/").perform foretold).1.toOption = some () := by
    decide +kernel
  have ran : (foretold.executed ((execute variedSteps "/").perform foretold).2).map
      (fun event => event.ran?.isSome) = [true, false] := by decide +kernel
  refine .of_ran (fun m same => ?_) ran fun i own found => ?_
  · rw [same] at ended
    cases ended
  · match i with
    | 0 =>
      cases found
      exact ⟨rfl, rfl⟩
    | 1 =>
      cases found
      exact stated_versionReport
    | _ + 2 => cases found

theorem dry_runs_preview_the_run_varied :
    Foretells foretold
        ((execute variedSteps "/").perform foretold.dry)
        ((execute variedSteps "/").perform foretold) ∧
      foretold.commands ((execute variedSteps "/").perform foretold).2 = [("make", "/")] ∧
      foretold.previewed ((execute variedSteps "/").perform foretold.dry).2 =
        ["[PREVIEW] Would execute: make (in /)"] := by
  have constant : ∀ environment ∈ environments variedSteps, environment.Constant := by
    have free : Expression.Placeholder.IsFree "test".toList ∧
        Expression.Placeholder.IsFree "fast".toList := by decide
    rw [environments_variedSteps]
    simpa [Value.Constant, Value.mapping?, Value.opened] using free
  have named : ∀ environment ∈ environments variedSteps, environment.Named := by
    rw [environments_variedSteps]
    simp [Value.Named, Value.mapping?, Value.opened, Scalar.plain]
  exact ⟨dry_runs_preview_the_run rfl rfl impartial_foretold constant named "/" serves_variedSteps,
    by decide +kernel, by decide +kernel⟩

def longKey : Scalar := .int (Nat.pow 16 3600)

def keyedVariable (key : Scalar) : Mapping :=
  [(.str "on", .str "push"), (.str "jobs", .map [(.str "a", .map [(.str "runs-on", .str "x"),
    (.str "steps", .list [
      .map [(.str "run", .str "make")],
      .map [(.str "run", .str "make test"), (.str "env", .map [(key, .str "x")])]])])])]

theorem environments_keyedVariable (key : Scalar) :
    environments (keyedVariable key) = [.null, .map [(key, .str "x")]] := rfl

/-- Variables whose names have no texts end a real run with a fault, and a dry run does not look at
them. -/
theorem previews_miss_unnamed_variables :
    foretold.policy.dryRun = false ∧ foretold.policy.runAllCommands = true ∧
      foretold.registry.Impartial ∧
      (∀ environment ∈ environments (keyedVariable longKey), environment.Constant) ∧
      Serves foretold ((execute (keyedVariable longKey) "/").perform foretold).1
        ((execute (keyedVariable longKey) "/").perform foretold).2 ∧
      ¬Foretells foretold
        ((execute (keyedVariable longKey) "/").perform foretold.dry)
        ((execute (keyedVariable longKey) "/").perform foretold) := by
  have ended : ((execute (keyedVariable longKey) "/").perform foretold.dry).1.toOption =
      some () := by decide +kernel
  have failed : ((execute (keyedVariable longKey) "/").perform foretold).1.mapError
      Fault.isValueFault = .error true := by decide +kernel
  have ran : (foretold.executed ((execute (keyedVariable longKey) "/").perform foretold).2).map
      (fun event => event.ran?.isSome) = [true] := by decide +kernel
  refine ⟨rfl, rfl, impartial_foretold, ?_, .of_ran (fun m same => ?_) ran fun i own found => ?_,
    fun foretells => ?_⟩
  · have free : Expression.Placeholder.IsFree "x".toList := by decide
    rw [environments_keyedVariable]
    simpa [Value.Constant, Value.mapping?, Value.opened] using free
  · rw [same] at failed
    cases failed
  · cases i with
    | zero =>
      cases found
      exact ⟨rfl, rfl⟩
    | succ => cases found
  · rw [foretells.result] at ended
    generalize ((execute (keyedVariable longKey) "/").perform foretold).1 = result at ended failed
    cases result with
    | error fault => cases ended
    | ok => cases failed

end Rehearsal.Run
