import Rehearsal.Proofs.Condition.JsonAlike
import Rehearsal.Proofs.Job.Concluded
import Rehearsal.Proofs.Matrix.Listed
import Rehearsal.Proofs.Run.Readings
import Rehearsal.Proofs.Step.Given

/-! A step gives a list, its job exports it, and another job makes a matrix of it. What comes out is
the list item by item, without a question, and the same list in a condition:
`lists_survive_the_trip`. The list does not arrive if the job or the output has no name, if its
reading is already kept, or if a string joins two halves to a pair: `lists_lost_on_the_trip`. -/

namespace Rehearsal

open Play Reference Expression

/-- The way of a list from a step of a job to a session in which other jobs refer to it. Between its
stations nothing takes the place of what is on record. -/
structure Trip (job name : String) (items : List Value) where
  site : Step.Site
  step : String
  output : String
  scope : Scope
  definition : Mapping
  start : Session
  given : Session
  ended : Session
  exported : Session
  final : Session
  own : site.job = .str job
  same : scope.job = .str job
  named : IsName output
  gives : Step.Gives site step output items start given
  held : ended.context.stepOutput? (.str job) step output =
    given.context.stepOutput? (.str job) step output
  exports : Job.Exports scope definition step output name ended exported
  kept : final.context.jobOutput? (.str job) name = exported.context.jobOutput? (.str job) name

variable {job name : String} {items : List Value}

theorem Trip.recorded (trip : Trip job name items) :
    ∃ text, Json.text .compact (.list items) = .ok text ∧
      trip.final.context.jobOutput? (.str job) name = some text := by
  obtain ⟨text, told, known⟩ := trip.gives.recorded trip.named
  rw [trip.own, ← trip.held, ← trip.same] at known
  refine ⟨text, told, ?_⟩
  rw [trip.kept, ← trip.same]
  exact trip.exports.recorded known

/-- **Lists in a matrix.** A list that a step gives and its job exports is what a matrix gets that
reads the output as JSON: one instance for each item, in order, and nothing is asked. A condition
that reads the output gets the same list. Neither the output nor its reading may have been resolved
to another value before. The session at the end can be any one, so both are asked of it; in one that
operations of a run lead to the second follows from the first (`Session.Consistent.unread`). -/
theorem lists_survive_the_trip (trip : Trip job name items) (owner : IsName job)
    (named : IsName name) (nonempty : items ≠ []) (portable : (Value.list items).Portable)
    (fresh : trip.final.kept? (needed job name) = none)
    (unread : trip.final.kept? (decoded (needed job name)) = none)
    (scope : Scope) (axis : String) (free : Matrix.isReserved (.str axis) = false)
    (frame : Condition.Frame) :
    (∃ t, (Matrix.expand scope (.map [(.str axis,
          .str (String.ofList (Placeholder.of (decoded (needed job name)))))])).perform trip.final =
        (.ok (items.map fun item => [(.str axis, item)]), t) ∧
      t.questions = trip.final.questions) ∧
    ∃ e, (Condition.expression frame (decoded (needed job name)).toList).perform trip.final =
        (.ok e, trip.final) ∧
      Condition.missing? trip.final.context frame.owner.stepsOf? e = none ∧
      (Condition.evaluate frame e).perform trip.final =
        (.ok (.fresh (.list items)), trip.final) := by
  obtain ⟨text, told, recorded⟩ := trip.recorded
  obtain ⟨written, same, parsed⟩ := portable.restored
  obtain rfl : written = text := Except.ok.inj (same.symm.trans told)
  have reference := owner.isReference_needed named
  constructor
  · have given := perform_found_of_job? (owner.isPath_needed named) (owner.job?_needed named)
      recorded scope.workflow
    obtain ⟨t, resolved, asked⟩ :=
      perform_resolve_decoded reference given parsed told fresh unread
    obtain ⟨u, expanded, noted⟩ := Matrix.perform_expand_placeholder
      (isCanonical_decoded reference) (substitute_decoded scope _ ▸ resolved) parsed nonempty free
    exact ⟨u, expanded, noted.questions.trans asked⟩
  · have looked : (Condition.lookup frame (needed job name)).perform trip.final = _ :=
      Condition.perform_lookup_of_job? (owner.job?_needed named) trip.final
    rw [recorded] at looked
    have present := Condition.missingAt?_eq_none_of_job? (owner.job?_needed named) recorded
    exact ⟨_, Condition.perform_expression_decoded reference frame _,
      Condition.missing?_decoded (present _),
      Condition.perform_evaluate_decoded looked (Condition.fromJson_of_parse parsed)⟩

/-! ### Trips of a run that has begun -/

namespace Trip

def exporter (name : String) : Mapping :=
  [(.str "outputs", .map [(.str name, .str "$\x7b\x7b steps.plan.outputs.list \x7d\x7d")])]

def siteOf (job : String) : Step.Site := ⟨[], "/repo", .str job, .null, [], []⟩

def exportedFrom (job name : String) (given : Session) : Except Fault Unit × Session :=
  (Job.recordOutputs ⟨[], .str job, []⟩ (exporter name)).perform given

theorem jobOutput?_resolved (c : Context) (resolved : Table String String) (job : Scalar)
    (name : String) : { c with resolved }.jobOutput? job name = c.jobOutput? job name := rfl

/-- A trip of a list that a step gives, to a session in which some expressions are resolved
already. -/
def ofStep (resolved : Table String String) {given : Session}
    (gives : Step.Gives (siteOf job) "plan" "list" items {} given)
    (ran : (exportedFrom job name given).1.toOption = some ()) : Trip job name items where
  site := siteOf job
  step := "plan"
  output := "list"
  scope := ⟨[], .str job, []⟩
  definition := exporter name
  start := {}
  given := given
  ended := given
  exported := (exportedFrom job name given).2
  final :=
    let s := (exportedFrom job name given).2
    { s with context := { s.context with resolved } }
  own := rfl
  same := rfl
  named := by decide
  gives := gives
  held := rfl
  exports := ⟨⟨[], _, [], _, rfl, rfl, by decide +kernel, nofun⟩, perform_eq_of_toOption ran⟩
  kept := jobOutput?_resolved ..

/-- What a command leaves behind that wrote the text of a list. -/
def reportOf (text : String) : Report where
  written := some (("list=" ++ text).toList.map fun c => .ofNat c.toNat)

theorem gives_reportOf {text : String} (told : (Value.list items).expressionText = .ok text)
    (line : Text.lines (Text.ofBytes ((reportOf text).written.getD [])) = ["list=" ++ text]) :
    Step.Gives (siteOf job) "plan" "list" items {}
      ((Step.finish (siteOf job) "plan" (reportOf text)).perform {}).2 :=
  .file rfl told (show _ = [] ++ ("list" ++ "=" ++ text) :: [] from line) nofun (Prod.eta _).symm

def ofText (text : String) (resolved : Table String String)
    (told : (Value.list items).expressionText = .ok text)
    (line : Text.lines (Text.ofBytes ((reportOf text).written.getD [])) = ["list=" ++ text])
    (ran : (exportedFrom job name ((Step.finish (siteOf job) "plan"
      (reportOf text)).perform {}).2).1.toOption = some ()) : Trip job name items :=
  ofStep resolved (gives_reportOf told line) ran

def mockOf (items : List Value) : Mock where
  respond _ _ := .ok (.map [(.str "list", .list items)])

def mocked (job : String) (items : List Value) : Except Fault Unit × Session :=
  (Step.runMock (siteOf job) (.map []) "plan" "/repo" "plan" (mockOf items)).perform {}

theorem gives_mockOf (ran : (mocked job items).1.toOption = some ()) :
    Step.Gives (siteOf job) "plan" "list" items {} (mocked job items).2 := by
  have called : (Step.inputs (siteOf job) (.map []) "plan").perform {} = (.ok [], {}) := rfl
  have returned (earlier : Nat) (invocation : Invocation) :
      (mockOf items).respond earlier invocation =
        .ok (.map ([] ++ (.str "list", .list items) :: [])) := rfl
  exact .mock called (returned ..) nofun (perform_eq_of_toOption ran)

/-- What a matrix gets that reads the output: the texts of the values of each instance, and the
questions that are asked for them. -/
def outcome (trip : Trip job name items) : Option (List (List (Option String))) × List Question :=
  let (found, t) := (Matrix.expand ⟨[], .str "late", []⟩ (.map [(.str "item", .str (String.ofList
    (Placeholder.of (decoded (needed job name)))))])).perform trip.final
  (found.toOption.map fun instances => instances.map fun bindings =>
    bindings.map fun binding => binding.2.expressionText.toOption, trip.final.asked t)

/-- That the list arrives: there is one instance for each item, in order, and nothing is asked. -/
def Arrives (trip : Trip job name items) : Prop :=
  ∃ t, (Matrix.expand ⟨[], .str "late", []⟩ (.map [(.str "item",
      .str (String.ofList (Placeholder.of (decoded (needed job name)))))])).perform trip.final =
    (.ok (items.map fun item => [(.str "item", item)]), t) ∧ t.questions = trip.final.questions

theorem outcome_of_arrives {trip : Trip job name items} (arrives : trip.Arrives) :
    trip.outcome = (some (items.map fun item => [item.expressionText.toOption]), []) := by
  obtain ⟨t, expanded, questions⟩ := arrives
  have asked : trip.final.asked t = [] := by rw [Session.asked, questions, List.drop_length]
  simp [outcome, expanded, asked, Except.toOption]

theorem not_arrives {trip : Trip job name items}
    (other : trip.outcome ≠ (some (items.map fun item => [item.expressionText.toOption]), [])) :
    ¬trip.Arrives := fun arrives => other (outcome_of_arrives arrives)

end Trip

def plannedItems : List Value :=
  [.int 1, .str "a \"b\"", .map [(.str "k", .list [.null, .bool true])]]

def plannedTrip : Trip "build" "tests" plannedItems :=
  .ofStep [] (Trip.gives_mockOf (by decide +kernel)) (by decide +kernel)

theorem portable_plannedItems : (Value.list plannedItems).Portable := by
  have number : (1 : Int).natAbs < 10 ^ Numeral.maxDigits := Nat.one_lt_pow (by decide) (by decide)
  have inner : (Value.list [.null, .bool true]).Portable :=
    .list (List.forall_mem_cons.mpr ⟨.null, List.forall_mem_singleton.mpr (.bool true)⟩)
  have mapping : (Value.map [(.str "k", .list [.null, .bool true])]).Portable :=
    .map (List.forall_mem_singleton.mpr ⟨"k", rfl, by decide⟩) (List.pairwise_singleton ..)
      (List.forall_mem_singleton.mpr inner)
  exact .list (List.forall_mem_cons.mpr ⟨.int number,
    List.forall_mem_cons.mpr ⟨.str (by decide), List.forall_mem_singleton.mpr mapping⟩⟩)

theorem lists_survive_the_trip_planned :
    plannedItems ≠ [] ∧ (Value.list plannedItems).Portable ∧
      plannedTrip.final.kept? (needed "build" "tests") = none ∧
      plannedTrip.final.kept? (decoded (needed "build" "tests")) = none ∧ plannedTrip.Arrives ∧
      plannedTrip.outcome =
        (some [[some "1"], [some "a \"b\""], [some "\x7b\"k\":[null,true]\x7d"]], []) := by
  have nonempty : plannedItems ≠ [] := nofun
  have fresh : plannedTrip.final.kept? (needed "build" "tests") = none := by decide +kernel
  have reference : IsReference (needed "build" "tests") :=
    IsName.isReference_needed (by decide) (by decide)
  have unread : plannedTrip.final.kept? (decoded (needed "build" "tests")) = none :=
    Session.Consistent.unread (fun _ _ _ _ kept => nomatch kept) reference fresh
  have arrives : plannedTrip.Arrives := (lists_survive_the_trip plannedTrip (by decide) (by decide)
    nonempty portable_plannedItems fresh unread ⟨[], .str "late", []⟩ "item" (by decide)
    ⟨[], .job, []⟩).1
  refine ⟨nonempty, portable_plannedItems, fresh, unread, arrives, ?_⟩
  rw [Trip.outcome_of_arrives arrives]
  decide +kernel

/-! ### Lists that do not arrive -/

def unnamedJob : Trip "" "tests" [.int 1] :=
  .ofText "[1]" [] (by decide +kernel) (by decide +kernel) (by decide +kernel)

def unnamedOutput : Trip "build" "" [.int 1] :=
  .ofText "[1]" [] (by decide +kernel) (by decide +kernel) (by decide +kernel)

/-- The reading of the output is resolved already, though the output itself is not. -/
def readBefore : Trip "build" "tests" [.int 1] :=
  .ofText "[1]" [("fromJSON(needs.build.outputs.tests)", "[2]")] (by decide +kernel)
    (by decide +kernel) (by decide +kernel)

def halves : String := String.ofList [Text.ofCode 0xd83d, Text.ofCode 0xde00]

def splitPair : Trip "build" "tests" [.str halves] :=
  .ofText "[\"\\ud83d\\ude00\"]" [] (by decide +kernel) (by decide +kernel)
    (by decide +kernel)

/-- A list does not arrive from a job or an output without name: the user is asked. A reading that
is kept takes its place, and the halves of a pair arrive as one character. A later line with the
same name takes the place of the list already in the file. -/
theorem lists_lost_on_the_trip :
    (unnamedJob.final.kept? (needed "" "tests") = none ∧ ¬unnamedJob.Arrives) ∧
    (unnamedOutput.final.kept? (needed "build" "") = none ∧ ¬unnamedOutput.Arrives) ∧
    (readBefore.final.kept? (needed "build" "tests") = none ∧ ¬readBefore.Arrives) ∧
    (splitPair.final.kept? (needed "build" "tests") = none ∧ ¬splitPair.Arrives) ∧
    Table.find? "tests" (Outputs.ofText "tests=[1]\ntests=[2]") = some "[2]" := by
  -- The texts are made literal first, since the kernel cannot compute with their lengths otherwise.
  have unnamed : String.ofList (Placeholder.of (decoded (needed "" "tests"))) =
      "$\x7b\x7b fromJSON(needs..outputs.tests) \x7d\x7d" := by decide +kernel
  have nameless : String.ofList (Placeholder.of (decoded (needed "build" ""))) =
      "$\x7b\x7b fromJSON(needs.build.outputs.) \x7d\x7d" := by decide +kernel
  have whole : String.ofList (Placeholder.of (decoded (needed "build" "tests"))) =
      "$\x7b\x7b fromJSON(needs.build.outputs.tests) \x7d\x7d" := by decide +kernel
  refine ⟨⟨by decide +kernel, Trip.not_arrives ?_⟩, ⟨by decide +kernel, Trip.not_arrives ?_⟩,
    ⟨by decide +kernel, Trip.not_arrives ?_⟩, ⟨by decide +kernel, Trip.not_arrives ?_⟩,
    by decide +kernel⟩
  · rw [Trip.outcome, unnamed]
    decide +kernel
  · rw [Trip.outcome, nameless]
    decide +kernel
  · rw [Trip.outcome, whole]
    decide +kernel
  · rw [Trip.outcome, whole]
    decide +kernel

end Rehearsal
