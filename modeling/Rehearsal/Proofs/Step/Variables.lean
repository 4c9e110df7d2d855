import Rehearsal.Proofs.Condition.JsonAlike
import Rehearsal.Proofs.Context.Lookup
import Rehearsal.Proofs.Variable.Unasked
import Rehearsal.Step.Setting

/-! A variable of the workflow is written into a command as it stands in the workflow, while in the
environment of the command the placeholders in it are replaced. If there are none, both are the same
text: `variables_in_commands_and_environments`. -/

namespace Rehearsal

open Play Expression

/-! ### Texts with values put in -/

theorem Text.replaceFirst_eq_self {pattern replacement s : List Char} (absent : ¬pattern <:+: s) :
    replaceFirst pattern replacement s = s := by
  rw [replaceFirst]
  split
  · next before rest found => exact absurd ⟨before, rest, (splitAt?_eq_some found).symm⟩ absent
  · rfl

/-- A text in which values are put in place of placeholders, one after the other, each where the
placeholder of its expression stands first. -/
def Expression.Placeholder.placed (pairs : List (String × String)) (text : List Char) : List Char :=
  pairs.foldl (fun text pair => Text.replaceFirst (of pair.1) pair.2.toList text) text

theorem Expression.Placeholder.placed_of_absent {pairs : List (String × String)} {text : List Char}
    (absent : ∀ pair ∈ pairs, ¬of pair.1 <:+: text) : placed pairs text = text := by
  induction pairs with
  | nil => rfl
  | cons pair pairs ih =>
    obtain ⟨first, others⟩ := List.forall_mem_cons.mp absent
    rw [placed, List.foldl_cons, Text.replaceFirst_eq_self first]
    exact ih others

variable {scope : Scope} {step : String} {s t : Session}

/-- Filling a text puts the values of its expressions in. What every substitution leaves true of the
session, and says of the value, is so for each of them. -/
theorem exists_placed_of_fillWith (Fit : Session → Prop) (Gives : String → String → Prop)
    (each : ∀ expression value s t, Fit s →
      (substitute scope expression).perform s = (.ok value, t) → Gives expression value ∧ Fit t)
    (notes : ∀ s t, s.Noted t → Fit s → Fit t) {expressions : List String} {text filled : List Char}
    (fit : Fit s) (performed : (fillWith scope step expressions text).perform s = (.ok filled, t)) :
    ∃ pairs : List (String × String), pairs.map (·.1) = expressions ∧
      filled = Placeholder.placed pairs text ∧ ∀ pair ∈ pairs, Gives pair.1 pair.2 := by
  induction expressions generalizing s text with
  | nil =>
    cases performed
    exact ⟨[], rfl, rfl, nofun⟩
  | cons expression expressions ih =>
    obtain ⟨value, u, given, later⟩ := perform_bind_eq_ok performed
    obtain ⟨v, told, noted⟩ :=
      Session.Noted.log .debug ("[" ++ step ++ "] substituting " ++ expression) u
    rw [debug, perform_bind_ok told] at later
    obtain ⟨gives, still⟩ := each expression value s u fit given
    obtain ⟨pairs, rfl, rfl, others⟩ := ih (notes u v noted still) later
    exact ⟨(expression, value) :: pairs, rfl, rfl, List.forall_mem_cons.mpr ⟨gives, others⟩⟩

theorem exists_placed_of_fill (Fit : Session → Prop) (Gives : String → String → Prop)
    (each : ∀ expression value s t, Fit s →
      (substitute scope expression).perform s = (.ok value, t) → Gives expression value ∧ Fit t)
    (notes : ∀ s t, s.Noted t → Fit s → Fit t) {text filled : String} (fit : Fit s)
    (performed : (fill scope step text).perform s = (.ok filled, t)) :
    ∃ pairs : List (String × String), pairs.map (·.1) = Placeholder.extract text ∧
      filled = String.ofList (Placeholder.placed pairs text.toList) ∧
      ∀ pair ∈ pairs, Gives pair.1 pair.2 := by
  obtain ⟨chars, u, done, ended⟩ := perform_bind_eq_ok performed
  cases ended
  obtain ⟨pairs, names, rfl, gives⟩ := exists_placed_of_fillWith Fit Gives each notes fit done
  exact ⟨pairs, names, rfl, gives⟩

theorem fill_of_literal {text filled : String}
    (literal : ∀ expression ∈ Placeholder.extract text,
      ¬Placeholder.of expression <:+: text.toList)
    (performed : (fill scope step text).perform s = (.ok filled, t)) : filled = text := by
  obtain ⟨pairs, names, rfl, -⟩ := exists_placed_of_fill (fun _ => True) (fun _ _ => True)
    (fun _ _ _ _ _ _ => ⟨trivial, trivial⟩) (fun _ _ _ _ => trivial) trivial performed
  rw [Placeholder.placed_of_absent, String.ofList_toList]
  intro pair member
  apply literal
  rw [← names]
  exact List.mem_map_of_mem member

/-! ### Variables that are stated -/

/-- That variables state a value under a string, and nothing under a later key with that text. -/
def Value.States (environment : Value) (name : String) (value : Value) : Prop :=
  ∃ before after, environment.opened = .map (before ++ (.str name, value) :: after) ∧
    (∀ entry ∈ before, entry.1 ≠ .str name) ∧ ∀ entry ∈ after, entry.1.plain ≠ .ok name

/-- That variables state nothing under keys with a text. -/
def Value.Omits (environment : Value) (name : String) : Prop :=
  ∀ entries, environment.opened = .map entries → ∀ entry ∈ entries, entry.1.plain ≠ .ok name

variable {workflow : Mapping} {name text : String} {value : Value}

/-- The variables that a workflow states. -/
abbrev variablesOf (workflow : Mapping) : Value := (Table.find? (.str "env") workflow).getD .null

theorem Value.States.environmentValue? (states : Value.States (variablesOf workflow) name value) :
    environmentValue? workflow name = .ok (some value) := by
  obtain ⟨before, after, opened, first, -⟩ := states
  have absent : ∀ entry ∈ before, (entry.1 == Scalar.str name) = false := by
    intro entry member
    exact Bool.eq_false_iff.mpr (mt Scalar.beq_str_iff.mp (first entry member))
  rw [Rehearsal.environmentValue?, opened]
  exact congrArg _ (Table.find?_append_cons absent value after)

/-! ### Variables in commands -/

/-- The expression for a variable. -/
def Reference.ofVariable (name : String) : String := "env." ++ name

theorem Reference.rest?_ofVariable (name : String) :
    Text.rest? "env." (Reference.ofVariable name) = some name := by
  have whole : (Reference.ofVariable name).toList = "env.".toList ++ name.toList := by
    simp [Reference.ofVariable]
  rw [Text.rest?, whole, Text.after?_append, Option.map_some, String.ofList_toList]

theorem substitute_variable (scope : Scope) (name : String) :
    substitute scope (Reference.ofVariable name) =
      resolve scope.workflow (Reference.ofVariable name) := by
  have unbound : scope.binding? (Reference.ofVariable name) = none := by
    simp [Scope.binding?, Text.rest?, Reference.ofVariable, Text.after?]
  have other : Text.startsWith (Reference.ofVariable name) "steps." = false := by
    simp [Text.startsWith, Reference.ofVariable, Text.after?]
  rw [substitute, unbound]
  dsimp only
  rw [other, Bool.false_and, if_neg Bool.false_ne_true]

/-- That an expression has kept no value but a certain one. -/
def Session.KeepsOnly (expression text : String) (s : Session) : Prop :=
  ∀ value, s.kept? expression = some value → value = text

theorem Session.KeepsOnly.congr {expression : String} (keeps : s.KeepsOnly expression text)
    (same : t.context.resolved = s.context.resolved) : t.KeepsOnly expression text := by
  intro value kept
  rw [Session.kept?, same] at kept
  exact keeps value kept

theorem perform_resolve_variable (states : Value.States (variablesOf workflow) name value)
    (written : value.expressionText = .ok text)
    (keeps : s.KeepsOnly (Reference.ofVariable name) text) :
    ∃ t, (resolve workflow (Reference.ofVariable name)).perform s = (.ok text, t) ∧
      t.questions = s.questions := by
  cases kept : s.kept? (Reference.ofVariable name) with
  | some own =>
    obtain rfl := keeps own kept
    exact ⟨s, perform_resolve_of_kept kept, rfl⟩
  | none =>
    have source := Source.of_rest? (Reference.rest?_ofVariable name)
    have known : (Source.environment name).known? workflow s.context = some text := by
      rw [Source.known?, states.environmentValue?]
      dsimp only
      rw [written]
      rfl
    obtain ⟨u, given, noted⟩ := fromSource_of_known known (Reference.ofVariable name)
    have finds : (found workflow (Reference.ofVariable name)).perform s = (.ok text, u) := by
      rw [found, source]
      exact given
    exact ⟨_, perform_resolve_of_found kept finds, noted.questions⟩

theorem eq_of_substitute {expression own : String}
    (states : Value.States (variablesOf scope.workflow) name value)
    (written : value.expressionText = .ok text)
    (keeps : s.KeepsOnly (Reference.ofVariable name) text)
    (given : (substitute scope expression).perform s = (.ok own, t))
    (same : expression = Reference.ofVariable name) : own = text := by
  obtain ⟨u, resolved, -⟩ := perform_resolve_variable states written keeps
  rw [same, substitute_variable, resolved] at given
  cases given
  rfl

theorem Session.KeepsOnly.substitute {expression other : String}
    (states : Value.States (variablesOf scope.workflow) name value)
    (written : value.expressionText = .ok text)
    (keeps : s.KeepsOnly (Reference.ofVariable name) text)
    (performed : (Rehearsal.substitute scope expression).perform s = (.ok other, t)) :
    t.KeepsOnly (Reference.ofVariable name) text := by
  rcases substitute_cases scope expression with poses | resolves
  · exact keeps.congr (poses.resolved_eq performed)
  · rw [resolves] at performed
    intro own kept
    rcases (learned_of_resolve performed).only _ own kept with before | ⟨-, given⟩
    · exact keeps own before
    · obtain ⟨u, resolved, -⟩ := perform_resolve_variable states written keeps
      rw [resolved] at given
      exact (Except.ok.inj given).symm

/-! ### Variables in environments -/

namespace Step

variable {stepId : String} {entries : Mapping} {filled : List (String × String)}

theorem parts_of_fillEntries {entry : Scalar × Value}
    (performed : (fillEntries scope stepId (entry :: entries)).perform s = (.ok filled, t)) :
    ∃ key text rest u, entry.1.plain = .ok key ∧
      (fillValue scope stepId entry.2).perform s = (.ok text, u) ∧
      (fillEntries scope stepId entries).perform u = (.ok rest, t) ∧
      filled = (key, text) :: rest := by
  rw [fillEntries] at performed
  rcases perform_fit_cases performed with ⟨_, _, failed, _⟩ | ⟨key, told, later⟩
  · cases failed
  · obtain ⟨text, u, given, further⟩ := perform_bind_eq_ok later
    obtain ⟨rest, v, others, ended⟩ := perform_bind_eq_ok further
    cases ended
    exact ⟨key, text, rest, u, told, given, others, rfl⟩

theorem find?_of_omitted (omits : ∀ entry ∈ entries, entry.1.plain ≠ .ok name)
    (performed : (fillEntries scope stepId entries).perform s = (.ok filled, t)) :
    Table.find? name (Table.ofList filled) = none := by
  induction entries generalizing s filled with
  | nil =>
    cases performed
    rfl
  | cons entry entries ih =>
    obtain ⟨key, text, rest, u, told, -, others, rfl⟩ := parts_of_fillEntries performed
    obtain ⟨first, further⟩ := List.forall_mem_cons.mp omits
    have other : ¬(key == name) = true := by
      rintro same
      rw [eq_of_beq same] at told
      exact first told
    rw [Table.find?_ofList_cons, ih further others, if_neg other, Option.none_or]

theorem find?_of_stated {before after : Mapping}
    (last : ∀ entry ∈ after, entry.1.plain ≠ .ok name)
    (performed : (fillEntries scope stepId (before ++ (.str name, value) :: after)).perform s =
      (.ok filled, t)) :
    ∃ earlier own u v, (fillEntries scope stepId before).perform s = (.ok earlier, u) ∧
      (fillValue scope stepId value).perform u = (.ok own, v) ∧
      Table.find? name (Table.ofList filled) = some own := by
  induction before generalizing s filled with
  | nil =>
    obtain ⟨key, own, rest, u, told, given, others, rfl⟩ := parts_of_fillEntries performed
    cases told
    refine ⟨[], own, s, u, rfl, given, ?_⟩
    rw [Table.find?_ofList_cons, find?_of_omitted last others, if_pos BEq.rfl, Option.none_or]
  | cons entry before ih =>
    obtain ⟨key, text, rest, u, told, first, others, rfl⟩ := parts_of_fillEntries performed
    obtain ⟨earlier, own, v, w, filled, given, found⟩ := ih others
    refine ⟨(key, text) :: earlier, own, v, w, ?_, given, ?_⟩
    · rw [fillEntries, told, perform_bind_ok (perform_fit ..), perform_bind_ok first,
        perform_bind_ok filled]
      rfl
    · rw [Table.find?_ofList_cons, found, Option.some_or]

theorem entries_of_statedVariables {environment : Value} {table : Table String String}
    (performed : (statedVariables scope stepId environment).perform s = (.ok table, t)) :
    (∃ entries filled, environment.opened = .map entries ∧
      (fillEntries scope stepId entries).perform s = (.ok filled, t) ∧
      table = Table.ofList filled) ∨
    (∀ entries, environment.opened ≠ .map entries) ∧ table = [] := by
  unfold statedVariables at performed
  split at performed
  · next entries opened =>
    obtain ⟨filled, u, given, ended⟩ := perform_bind_eq_ok performed
    cases ended
    exact .inl ⟨entries, filled, opened, given, rfl⟩
  · next other =>
    cases performed
    exact .inr ⟨other, rfl⟩

/-- In the environment of a step, a variable of the workflow that neither the job nor the step
states has what its value is filled with. -/
theorem find?_environment {site : Site} {own : Value} {environment : Table String String}
    (states : Value.States (variablesOf site.workflow) name value)
    (job : Table.find? name site.jobEnvironment = none)
    (omits : ∀ ofStep, member "env" own = .ok ofStep → ofStep.Omits name)
    (performed : (Step.environment site own stepId).perform s = (.ok environment, t)) :
    ∃ before after earlier text u v,
      (variablesOf site.workflow).opened = .map (before ++ (.str name, value) :: after) ∧
      (fillEntries site.scope stepId before).perform s = (.ok earlier, u) ∧
      (fillValue site.scope stepId value).perform u = (.ok text, v) ∧
      Table.find? name environment = some text := by
  obtain ⟨ofWorkflow, u, first, later⟩ := perform_bind_eq_ok performed
  obtain ⟨definition, v, told, further⟩ := perform_bind_eq_ok later
  obtain ⟨ofStep, w, second, ended⟩ := perform_bind_eq_ok further
  cases ended
  obtain ⟨before, after, opened, -, last⟩ := states
  have written : ∃ earlier text u v,
      (fillEntries site.scope stepId before).perform s = (.ok earlier, u) ∧
      (fillValue site.scope stepId value).perform u = (.ok text, v) ∧
      Table.find? name (Table.ofList ofWorkflow) = some text := by
    rcases entries_of_statedVariables first with ⟨entries, filled, same, given, rfl⟩ | ⟨other, -⟩
    · cases opened.symm.trans same
      rw [Table.ofList_ofList]
      exact find?_of_stated last given
    · exact absurd opened (other _)
  have hidden : Table.find? name (Table.ofList ofStep) = none := by
    rcases entries_of_statedVariables second with ⟨entries, filled, same, given, rfl⟩ | ⟨-, rfl⟩
    · rw [perform_adopt] at told
      rw [Table.ofList_ofList]
      exact find?_of_omitted (omits _ (Prod.mk.inj told).1 entries same) given
    · rfl
  obtain ⟨earlier, text, x, y, filled, given, found⟩ := written
  refine ⟨before, after, earlier, text, x, y, opened, filled, given, ?_⟩
  rw [Table.find?_putAll, hidden, Table.find?_putAll, Table.find?_ofList_of_none job,
    Table.find?_putAll, found]
  rfl

end Step

/-- In every command, the placeholders of a variable that the workflow states are replaced by its
value as it is written, with no question. In the environment, if neither the job nor the step states
the variable, it has that value with its placeholders replaced, which is the same text if there are
none. They are replaced after those of the variables before it. -/
theorem variables_in_commands_and_environments (site : Step.Site) (step : Value) (stepId : String)
    (name text : String) (value : Value)
    (states : Value.States (variablesOf site.workflow) name value)
    (written : value.expressionText = .ok text)
    (canonical : Placeholder.IsCanonical (Reference.ofVariable name))
    (job : Table.find? name site.jobEnvironment = none)
    (omits : ∀ environment, Step.member "env" step = .ok environment → environment.Omits name) :
    (∀ s : Session, s.KeepsOnly (Reference.ofVariable name) text →
      (∀ before after, Placeholder.IsFree before → Placeholder.IsFree after → ∃ t,
        (fill site.scope stepId (String.ofList
          (before ++ (Placeholder.of (Reference.ofVariable name) ++ after)))).perform s =
            (.ok (String.ofList (before ++ text.toList ++ after)), t) ∧
          t.questions = s.questions) ∧
      ∀ command filled t, (fill site.scope stepId command).perform s = (.ok filled, t) →
        ∃ pairs : List (String × String), pairs.map (·.1) = Placeholder.extract command ∧
          filled = String.ofList (Placeholder.placed pairs command.toList) ∧
          ∀ pair ∈ pairs, pair.1 = Reference.ofVariable name → pair.2 = text) ∧
    ∀ s environment t, (Step.environment site step stepId).perform s = (.ok environment, t) →
      ∃ before after earlier own u v,
        (variablesOf site.workflow).opened = .map (before ++ (.str name, value) :: after) ∧
        (Step.fillEntries site.scope stepId before).perform s = (.ok earlier, u) ∧
        (fill site.scope stepId text).perform u = (.ok own, v) ∧
        Table.find? name environment = some own ∧
        ((∀ expression ∈ Placeholder.extract text, ¬Placeholder.of expression <:+: text.toList) →
          own = text) := by
  refine ⟨fun s keeps => ⟨?_, ?_⟩, ?_⟩
  · intro before after free others
    obtain ⟨t, resolved, questions⟩ := perform_resolve_variable states written keeps
    have given : (substitute site.scope (Reference.ofVariable name)).perform s = (.ok text, t) := by
      rw [substitute_variable]
      exact resolved
    obtain ⟨u, filled, noted⟩ := perform_fill_around canonical given free others stepId
    exact ⟨u, filled, noted.questions.trans questions⟩
  · intro command filled t performed
    apply exists_placed_of_fill (Session.KeepsOnly (Reference.ofVariable name) text)
      (fun expression own => expression = Reference.ofVariable name → own = text) ?_ ?_ keeps
      performed
    · intro expression own u v keeps given
      exact ⟨eq_of_substitute states written keeps given, keeps.substitute states written given⟩
    · intro u v noted keeps
      exact keeps.congr (congrArg _ noted.context)
  · intro s environment t performed
    obtain ⟨before, after, earlier, own, u, v, opened, filled, given, found⟩ :=
      Step.find?_environment states job omits performed
    rw [fillValue, written] at given
    exact ⟨before, after, earlier, own, u, v, opened, filled, given, found,
      fun literal => fill_of_literal literal given⟩

def variablesSite (entries : Mapping) : Step.Site where
  workflow := [(.str "env", .map entries)]
  repositoryRoot := "/repo"
  job := .str "build"
  definition := .map []
  jobEnvironment := [("B", "2")]

/-- The value of `A` has a placeholder with two spaces, which is left as it is. -/
def spacedSite : Step.Site :=
  variablesSite [(.int 1, .str "x"), (.str "A", .str "$\x7b\x7b  github.sha \x7d\x7d"),
    (.str "B", .str "1")]

def variablesStep : Value := .map [(.str "env", .map [(.str "C", .str "3")])]

theorem variables_in_commands_and_environments_spaced :
    (∃ t, (fill spacedSite.scope "s" "echo $\x7b\x7b env.A \x7d\x7d").perform {} =
      (.ok "echo $\x7b\x7b  github.sha \x7d\x7d", t) ∧ t.questions = []) ∧
    ∃ environment t, (Step.environment spacedSite variablesStep "s").perform {} =
      (.ok environment, t) ∧
        Table.find? "A" environment = some "$\x7b\x7b  github.sha \x7d\x7d" := by
  have states : Value.States (variablesOf spacedSite.workflow) "A"
      (.str "$\x7b\x7b  github.sha \x7d\x7d") := by
    refine ⟨[(.int 1, .str "x")], [(.str "B", .str "1")], rfl, ?_, ?_⟩
    · exact List.forall_mem_singleton.mpr nofun
    · exact List.forall_mem_singleton.mpr (by decide)
  have omits (environment : Value) (own : Step.member "env" variablesStep = .ok environment) :
      environment.Omits "A" := by
    cases own
    rintro entries ⟨⟩
    exact List.forall_mem_singleton.mpr (by decide)
  obtain ⟨commands, environments⟩ := variables_in_commands_and_environments spacedSite
    variablesStep "s" "A" "$\x7b\x7b  github.sha \x7d\x7d" _ states rfl (by decide) rfl omits
  constructor
  · exact (commands {} nofun).1 "echo ".toList [] (by decide) (by decide)
  · have given : ((Step.environment spacedSite variablesStep "s").perform {}).1.toOption.isSome =
        true := by decide +kernel
    obtain ⟨environment, seen⟩ := Option.isSome_iff_exists.mp given
    have performed := perform_eq_of_toOption seen
    obtain ⟨-, -, -, own, u, v, -, -, -, found, literal⟩ := environments {} environment _ performed
    refine ⟨environment, _, performed, ?_⟩
    rw [found, literal (by decide +kernel)]

/-- A value with a placeholder, a key that is a number with the text of another key, and a name that
ends with a space. -/
theorem variables_differ_in_commands_and_environments :
    let commands (entries : Mapping) (text : String) :=
      ((fill (variablesSite entries).scope "s" text).perform {}).1.toOption
    let environments (entries : Mapping) (name : String) :=
      ((Step.environment (variablesSite entries) (.map []) "s").perform {}).1.toOption.bind
        (Table.find? name)
    let placed : Mapping := [(.str "A", .str "$\x7b\x7b github.sha \x7d\x7d")]
    let numbered : Mapping := [(.str "1", .str "b"), (.int 1, .str "a")]
    let spaced : Mapping := [(.str "A ", .str "1")]
    commands placed "$\x7b\x7b env.A \x7d\x7d" = some "$\x7b\x7b github.sha \x7d\x7d" ∧
      environments placed "A" = some "abc123def456" ∧
      commands numbered "$\x7b\x7b env.1 \x7d\x7d" = some "b" ∧
      environments numbered "1" = some "a" ∧
      commands spaced "$\x7b\x7b env.A  \x7d\x7d" = some "$\x7b\x7b env.A  \x7d\x7d" ∧
      environments spaced "A " = some "1" := by
  decide +kernel

end Rehearsal
