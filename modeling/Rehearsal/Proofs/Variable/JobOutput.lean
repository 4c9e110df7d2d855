import Rehearsal.Proofs.Variable.Fill
import Rehearsal.Proofs.Variable.StepOutput

/-! An output of a job that is put together from recorded outputs of its steps is the same text as
that of a command, and nothing is asked for it, if it is a single placeholder or cannot be taken for
one (`job_outputs_like_commands`). Two placeholders with a text between them can: they are taken for
one whose output has a name that reaches into the second (`job_output_asked_for`). -/

namespace Rehearsal

open Play Expression

/-! ### References to outputs of steps -/

namespace Reference

def ofStep (step name : String) : String := "steps" ++ "." ++ step ++ ".outputs." ++ name

theorem toList_ofStep (step name : String) : (ofStep step name).toList =
    "steps.".toList ++ (step.toList ++ (".outputs.".toList ++ name.toList)) := by
  simp [ofStep]

namespace IsName

variable {step name : String} (owner : IsName step) (dotted : IsDotted name)
include owner dotted

theorem isPath_ofStep : IsPath (ofStep step name).toList :=
  isPath_outputs (show IsName "steps" by decide) owner dotted

theorem step?_ofStep : step? (ofStep step name) = some (step, name) :=
  output?_of_isPath (owner.not_mem (by decide)) (owner.isPath_ofStep dotted)

theorem stepPlaceholder?_ofStep :
    stepPlaceholder? (String.ofList (Placeholder.of (ofStep step name))) = some (step, name) := by
  have text : Placeholder.of (ofStep step name) = '$' :: (['\x7b', '\x7b'] ++ ' ' ::
      ("steps.".toList ++ (step.toList ++ '.' :: ("outputs.".toList ++
        (name.toList ++ [' ', '\x7d', '\x7d']))))) := by
    rw [Placeholder.of, toList_ofStep]
    simp [Placeholder.opening, Placeholder.closing]
  have whole : Text.trim (Placeholder.of (ofStep step name)) =
      Placeholder.of (ofStep step name) := by
    refine Text.trim_eq_self ?_ ?_
    · rintro c ⟨⟩
      decide
    · intro c last
      rw [Placeholder.of, List.getLast?_append] at last
      obtain rfl : '\x7d' = c := Option.some.inj last
      decide
  have indented (s : List Char) : Text.trimLeft (' ' :: ("steps.".toList ++ s)) =
      "steps.".toList ++ s := rfl
  have outputs : Text.after? ".outputs.".toList ('.' :: ("outputs.".toList ++
      (name.toList ++ [' ', '\x7d', '\x7d']))) = some (name.toList ++ [' ', '\x7d', '\x7d']) :=
    Text.after?_append ".outputs.".toList _
  have closed : Text.after? ['\x7d', '\x7d'] (name.toList ++ [' ', '\x7d', '\x7d']).reverse =
      some (name.toList ++ [' ']).reverse := by simp [Text.after?]
  have shape : IsPath ('.' :: name.toList) := by simpa using dotted.isPath_dot .nil
  have visible : Text.trimLeft name.toList.reverse = name.toList.reverse := by
    refine Text.trimLeft_eq_self fun c first => ?_
    have member : c ∈ '.' :: name.toList :=
      List.mem_cons_of_mem _ (List.mem_reverse.mp (List.mem_of_head? first))
    rcases shape.isPartChar_or member with rfl | part
    · decide
    · exact isBlank_of_isPartChar part
  have trimmed : Text.trimRight (name.toList ++ [' ']) = name.toList := by
    rw [Text.trimRight, List.reverse_append]
    exact (congrArg List.reverse visible).trans (List.reverse_reverse _)
  have line : '\n' ∉ name.toList := fun member =>
    absurd (shape.isPartChar_or (List.mem_cons_of_mem _ member)) (by decide)
  rw [stepPlaceholder?, String.toList_ofList, whole, text]
  simp only [Option.bind_eq_bind, Text.after?_append, Option.bind_some, indented,
    segment?_append owner.nonempty (owner.not_mem (by decide)), outputs, closed,
    List.reverse_reverse, trimmed]
  split
  · next none => exact absurd none dotted.nonempty
  · simp [line, dotted.nonempty]

end IsName

/-- A text that begins otherwise, blanks apart, is not taken for the placeholder of a reference. -/
theorem stepPlaceholder?_eq_none {text : String} {c : Char} {s : List Char}
    (begins : Text.trim text.toList = c :: s) (dollar : c ≠ '$') (brace : c ≠ '\x7b') :
    stepPlaceholder? text = none := by
  have absent : Text.after? ['\x7b', '\x7b'] (c :: s) = none :=
    Text.after?_eq_none fun starts => brace (List.cons_prefix_cons.mp starts).1.symm
  rw [stepPlaceholder?, begins]
  split
  · next same => exact absurd (List.cons.inj same).1 dollar
  · rw [absent]
    rfl

end Reference

/-! ### Recorded outputs -/

/-- That an expression refers to an output of a step that is recorded with a value. -/
def IsRecorded (context : Context) (job : Scalar) (expression value : String) : Prop :=
  ∃ step name, Reference.IsName step ∧ Reference.IsName name ∧
    expression = Reference.ofStep step name ∧ context.stepOutput? job step name = some value

theorem perform_substitute_of_isRecorded {scope : Scope} {expression value : String} {s : Session}
    (recorded : IsRecorded s.context scope.job expression value) :
    ∃ t, (substitute scope expression).perform s = (.ok value, t) ∧ s.Noted t := by
  obtain ⟨step, name, owner, named, rfl, output⟩ := recorded
  have finds := finds_of_substitute scope (owner.step?_ofStep (.name named)) s
  rw [output] at finds
  exact finds.of_known

theorem exists_filled {context : Context} {scope : Scope} {expressions : List String}
    (recorded : ∀ expression ∈ expressions, ∃ value,
      IsRecorded context scope.job expression value) (text : List Char) :
    ∃ filled, ∀ step s, s.context = context →
      ∃ t, (fillWith scope step expressions text).perform s = (.ok filled, t) ∧ s.Noted t := by
  induction expressions generalizing text with
  | nil => exact ⟨text, fun step s _ => ⟨s, rfl, [], nofun, rfl⟩⟩
  | cons expression rest ih =>
    obtain ⟨⟨value, own⟩, others⟩ := List.forall_mem_cons.mp recorded
    obtain ⟨filled, same⟩ :=
      ih others (Text.replaceFirst (Placeholder.of expression) value.toList text)
    refine ⟨filled, ?_⟩
    rintro step s rfl
    obtain ⟨t, given, first⟩ := perform_substitute_of_isRecorded own
    obtain ⟨u, told, second⟩ :=
      Session.Noted.log .debug ("[" ++ step ++ "] substituting " ++ expression) t
    obtain ⟨v, done, third⟩ := same step u (second.context.trans first.context)
    refine ⟨v, ?_, first.trans (second.trans third)⟩
    rw [fillWith, perform_bind_ok given, debug, perform_bind_ok told]
    exact done

def Expression.Template.IsSingle (template : Template) : Prop :=
  template.start = [] ∧ ∃ slot, template.slots = [slot] ∧ slot.after = []

theorem Expression.Template.IsSingle.text_eq {template : Template} (single : template.IsSingle) :
    ∃ expression, template.expressions = [expression] ∧ Placeholder.IsCanonical expression ∧
      template.text = String.ofList (Placeholder.of expression) := by
  obtain ⟨start, slot, slots, after⟩ := single
  refine ⟨slot.expression, by rw [expressions, slots]; rfl, slot.canonical, ?_⟩
  rw [text, start, slots]
  simp [Slot.texts, after]

theorem perform_fill_around {scope : Scope} {expression value : String} {s t : Session}
    (canonical : Placeholder.IsCanonical expression)
    (given : (substitute scope expression).perform s = (.ok value, t)) {before after : List Char}
    (free : Placeholder.IsFree before) (others : Placeholder.IsFree after) (step : String) :
    ∃ u, (fill scope step (String.ofList (before ++ (Placeholder.of expression ++ after)))).perform
        s = (.ok (String.ofList (before ++ value.toList ++ after)), u) ∧ t.Noted u := by
  let template : Template := ⟨before, free, [⟨expression, after, canonical, others⟩]⟩
  have text : template.text =
      String.ofList (before ++ (Placeholder.of expression ++ after)) := by
    simp [template, Template.text, Slot.texts]
  obtain ⟨u, told, noted⟩ :=
    Session.Noted.log .debug ("[" ++ step ++ "] substituting " ++ expression) t
  have absent : ¬Placeholder.of expression <:+: before := fun inside =>
    free ((List.prefix_append ..).isInfix.trans inside)
  have done : (fillWith scope step template.expressions template.text.toList).perform s =
      (.ok (before ++ value.toList ++ after), u) := by
    rw [text, String.toList_ofList]
    show (fillWith scope step [expression] _).perform s = _
    rw [fillWith, perform_bind_ok given, debug, perform_bind_ok told,
      Placeholder.replaceFirst_of canonical absent]
    rfl
  refine ⟨u, ?_, noted⟩
  rw [← text, fill, template.extract_text, perform_bind_ok done]
  rfl

theorem perform_fill_placeholder {scope : Scope} {expression value : String} {s t : Session}
    (canonical : Placeholder.IsCanonical expression)
    (given : (substitute scope expression).perform s = (.ok value, t)) (step : String) :
    ∃ u, (fill scope step (String.ofList (Placeholder.of expression))).perform s =
      (.ok value, u) ∧ t.Noted u := by
  obtain ⟨u, filled, noted⟩ :=
    perform_fill_around canonical given Placeholder.isFree_nil Placeholder.isFree_nil step
  rw [List.nil_append, List.nil_append, List.append_nil, List.append_nil,
    String.ofList_toList] at filled
  exact ⟨u, filled, noted⟩

theorem perform_fill_of_isSingle {scope : Scope} (step : String) {template : Template}
    {expression value : String} {s : Session} (single : template.IsSingle)
    (own : template.expressions = [expression])
    (recorded : IsRecorded s.context scope.job expression value) :
    ∃ t, (fill scope step template.text).perform s = (.ok value, t) ∧ s.Noted t := by
  obtain ⟨other, expressions, canonical, text⟩ := single.text_eq
  obtain rfl : expression = other := (List.cons.inj (own.symm.trans expressions)).1
  obtain ⟨t, given, first⟩ := perform_substitute_of_isRecorded recorded
  obtain ⟨u, filled, second⟩ := perform_fill_placeholder canonical given step
  exact ⟨u, text ▸ filled, first.trans second⟩

theorem perform_resolveJobOutput_of_isSingle {scope : Scope} {template : Template}
    {expression value : String} {s : Session} (single : template.IsSingle)
    (own : template.expressions = [expression])
    (recorded : IsRecorded s.context scope.job expression value) :
    ∃ t, (resolveJobOutput scope (.str template.text)).perform s = (.ok value, t) ∧ s.Noted t := by
  obtain ⟨other, expressions, canonical, text⟩ := single.text_eq
  obtain rfl : expression = other := (List.cons.inj (own.symm.trans expressions)).1
  obtain ⟨id, name, owner, named, rfl, output⟩ := recorded
  exact perform_resolveJobOutput_of_stepPlaceholder? rfl
    (text ▸ owner.stepPlaceholder?_ofStep (.name named)) output

theorem resolveJobOutput_eq_fill (scope : Scope) {text : String}
    (other : Reference.stepPlaceholder? text = none) :
    resolveJobOutput scope (.str text) = fill scope "job-outputs" text := by
  have stated : (fit (Value.str text).expressionText : Play String) = pure text := rfl
  rw [resolveJobOutput, stated, pure_bind, other]
  exact ite_self _

/-- A job output of recorded step outputs is the text that a command would be, and nothing is asked
for it. This holds for a single placeholder, and for every text that is not taken for one, such as
one that begins with other text (`Reference.stepPlaceholder?_eq_none`). -/
theorem job_outputs_like_commands (scope : Scope) (step : String) (template : Template)
    (s : Session)
    (recorded : ∀ expression ∈ template.expressions, ∃ value,
      IsRecorded s.context scope.job expression value)
    (plain : template.IsSingle ∨ Reference.stepPlaceholder? template.text = none) :
    ∃ text t u, (resolveJobOutput scope (.str template.text)).perform s = (.ok text, t) ∧
      (fill scope step template.text).perform s = (.ok text, u) ∧
      t.questions = s.questions ∧ u.questions = s.questions := by
  rcases plain with single | other
  · obtain ⟨expression, expressions, -⟩ := single.text_eq
    obtain ⟨value, own⟩ := recorded expression (by rw [expressions]; exact List.mem_cons_self)
    obtain ⟨t, output, noted⟩ := perform_resolveJobOutput_of_isSingle single expressions own
    obtain ⟨u, command, asked⟩ := perform_fill_of_isSingle step single expressions own
    exact ⟨value, t, u, output, command, noted.questions, asked.questions⟩
  · obtain ⟨filled, same⟩ := exists_filled recorded template.text.toList
    have fills (step : String) : ∃ t,
        (fill scope step template.text).perform s = (.ok (String.ofList filled), t) ∧
          s.Noted t := by
      obtain ⟨t, done, noted⟩ := same step s rfl
      refine ⟨t, ?_, noted⟩
      rw [fill, template.extract_text, perform_bind_ok done]
      rfl
    obtain ⟨t, output, noted⟩ := fills "job-outputs"
    obtain ⟨u, command, asked⟩ := fills step
    rw [resolveJobOutput_eq_fill scope other]
    exact ⟨_, t, u, output, command, noted.questions, asked.questions⟩

def outputsSession : Session where
  context := Context.recordStep (.str "build") "a" [("x", "1"), ("y", "2")] {}

def outputsScope : Scope where
  workflow := []
  job := .str "build"

def labeledTemplate : Template where
  start := ['#']
  free := by decide
  slots := [⟨"steps.a.outputs.x", [], by decide, Placeholder.isFree_nil⟩]

theorem isRecorded_x :
    IsRecorded outputsSession.context outputsScope.job "steps.a.outputs.x" "1" :=
  ⟨"a", "x", by decide, by decide, by decide, by decide⟩

theorem isRecorded_y :
    IsRecorded outputsSession.context outputsScope.job "steps.a.outputs.y" "2" :=
  ⟨"a", "y", by decide, by decide, by decide, by decide⟩

theorem job_outputs_like_commands_labeled :
    ∃ text t u,
      (resolveJobOutput outputsScope (.str labeledTemplate.text)).perform outputsSession =
          (.ok text, t) ∧
        (fill outputsScope "" labeledTemplate.text).perform outputsSession = (.ok text, u) ∧
        t.questions = outputsSession.questions ∧ u.questions = outputsSession.questions := by
  refine job_outputs_like_commands outputsScope "" labeledTemplate outputsSession ?_ ?_
  · intro expression member
    rw [List.mem_singleton.mp member]
    exact ⟨"1", isRecorded_x⟩
  · have begins : Text.trim labeledTemplate.text.toList =
        '#' :: Placeholder.of "steps.a.outputs.x" := by decide +kernel
    exact .inr (Reference.stepPlaceholder?_eq_none begins (by decide) (by decide))

def pairTemplate : Template where
  start := []
  free := Placeholder.isFree_nil
  slots := [⟨"steps.a.outputs.x", ['-'], by decide, by decide⟩,
    ⟨"steps.a.outputs.y", [], by decide, Placeholder.isFree_nil⟩]

/-- Two placeholders are taken for one, whose output is not recorded. -/
theorem job_output_asked_for :
    (∀ expression ∈ pairTemplate.expressions, ∃ value,
      IsRecorded outputsSession.context outputsScope.job expression value) ∧
    ((fill outputsScope "" pairTemplate.text).perform outputsSession).1.toOption = some "1-2" ∧
    ((resolveJobOutput outputsScope (.str pairTemplate.text)).perform
      outputsSession).1.toOption = some "output-value" ∧
    ((resolveJobOutput outputsScope (.str pairTemplate.text)).perform
      outputsSession).2.questions ≠ outputsSession.questions := by
  refine ⟨?_, by decide +kernel, by decide +kernel, by decide +kernel⟩
  intro expression member
  rcases List.mem_cons.mp member with rfl | member
  · exact ⟨"1", isRecorded_x⟩
  · rw [List.mem_singleton.mp member]
    exact ⟨"2", isRecorded_y⟩

end Rehearsal
