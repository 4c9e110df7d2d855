import Rehearsal.Proofs.Expression.Placeholder
import Rehearsal.Proofs.Play.Perform
import Rehearsal.Variable.Resolve

/-! A template is filled with the values of its expressions, each in the place of its own
placeholder, if no placeholder stands already in what is filled before it (`templates_are_filled`).
A value that holds a later placeholder is not left alone: the later value goes there
(`filled_inside_a_value`). -/

namespace Rehearsal

open Play Expression

/-- The values of expressions, one after the other. The step is named in log records. -/
def substituteEach (scope : Scope) (step : String) : List String → Play (List String)
  | [] => return []
  | expression :: rest => do
    let value ← substitute scope expression
    debug ("[" ++ step ++ "] substituting " ++ expression)
    return value :: (← substituteEach scope step rest)

namespace Expression

def Slot.filled : List Slot → List String → List Char
  | slot :: slots, value :: values => value.toList ++ slot.after ++ filled slots values
  | _, _ => []

/-- That no placeholder of a slot stands in the filled text before it. -/
def Slot.Apart (before : List Char) : List Slot → List String → Prop
  | slot :: slots, value :: values =>
    ¬Placeholder.of slot.expression <:+: before ∧
      Apart (before ++ value.toList ++ slot.after) slots values
  | _, _ => True

instance Slot.decidableApart : (before : List Char) → (slots : List Slot) →
    (values : List String) → Decidable (Slot.Apart before slots values)
  | before, slot :: slots, value :: values =>
    have := decidableApart (before ++ value.toList ++ slot.after) slots values
    inferInstanceAs (Decidable (_ ∧ _))
  | _, [], _ => .isTrue trivial
  | _, _ :: _, [] => .isTrue trivial

def Template.filled (template : Template) (values : List String) : String :=
  String.ofList (template.start ++ Slot.filled template.slots values)

/-- That values leave every placeholder the first of its kind up to its turn. -/
def Template.Apart (template : Template) (values : List String) : Prop :=
  Slot.Apart template.start template.slots values

instance (template : Template) (values : List String) : Decidable (template.Apart values) :=
  Slot.decidableApart _ _ _

end Expression

variable {scope : Scope} {step : String}

theorem perform_fillWith {slots : List Slot} {before : List Char} {values : List String}
    {s t : Session}
    (found : (substituteEach scope step (slots.map (·.expression))).perform s = (.ok values, t))
    (apart : Slot.Apart before slots values) :
    (fillWith scope step (slots.map (·.expression)) (before ++ Slot.texts slots)).perform s =
      (.ok (before ++ Slot.filled slots values), t) := by
  induction slots generalizing before values s with
  | nil =>
    cases found
    rfl
  | cons slot slots ih =>
    obtain ⟨value, u, own, later⟩ := perform_bind_eq_ok found
    obtain ⟨⟨⟩, v, told, rest⟩ := perform_bind_eq_ok later
    obtain ⟨others, w, more, last⟩ := perform_bind_eq_ok rest
    cases last
    have text : before ++ Slot.texts (slot :: slots) =
        before ++ (Placeholder.of slot.expression ++ (slot.after ++ Slot.texts slots)) :=
      congrArg (before ++ ·) (List.append_assoc ..)
    have replaced := Placeholder.replaceFirst_of slot.canonical apart.1 value.toList
      (slot.after ++ Slot.texts slots)
    rw [List.map_cons, fillWith, perform_bind_ok own, perform_bind_ok told, text, replaced,
      ← List.append_assoc, ih more apart.2]
    simp only [Slot.filled, List.append_assoc]

theorem perform_fillWith_fault {expressions : List String} {text : List Char} {fault : Fault}
    {s t : Session}
    (refused : (substituteEach scope step expressions).perform s = (.error fault, t)) :
    (fillWith scope step expressions text).perform s = (.error fault, t) := by
  induction expressions generalizing text s with
  | nil => cases refused
  | cons expression rest ih =>
    rw [substituteEach] at refused
    rw [fillWith]
    rcases perform_bind_cases refused with ⟨own, failed, same⟩ | ⟨value, u, found, later⟩
    · cases same
      rw [perform_bind, failed]
    rcases perform_bind_cases later with ⟨own, failed, same⟩ | ⟨⟨⟩, v, told, others⟩
    · cases same
      rw [perform_bind_ok found, perform_bind, failed]
    rcases perform_bind_cases others with ⟨own, failed, same⟩ | ⟨values, w, more, last⟩
    · cases same
      rw [perform_bind_ok found, perform_bind_ok told]
      exact ih failed
    · cases last

/-- A template is filled with what its expressions come to, each value in the place of its own
placeholder. Where the expressions come to a fault, so does the template. -/
theorem templates_are_filled (scope : Scope) (step : String) (template : Template) (s : Session) :
    (∀ values t,
      (substituteEach scope step template.expressions).perform s = (.ok values, t) →
        template.Apart values →
          (fill scope step template.text).perform s = (.ok (template.filled values), t)) ∧
    ∀ fault t, (substituteEach scope step template.expressions).perform s = (.error fault, t) →
      (fill scope step template.text).perform s = (.error fault, t) := by
  have text : template.text.toList = template.start ++ Slot.texts template.slots :=
    String.toList_ofList
  constructor
  · intro values t found apart
    have filled : (fillWith scope step template.expressions
        (template.start ++ Slot.texts template.slots)).perform s =
          (.ok (template.start ++ Slot.filled template.slots values), t) :=
      perform_fillWith found apart
    rw [fill, template.extract_text, text, perform_bind_ok filled]
    rfl
  · intro fault t refused
    rw [fill, template.extract_text, text, perform_bind, perform_fillWith_fault refused]

def bindingsTemplate : Template where
  start := []
  free := Placeholder.isFree_nil
  slots := [⟨"matrix.a", [' '], by decide, by decide⟩,
    ⟨"matrix.b", [], by decide, Placeholder.isFree_nil⟩]

def bindingsScope (a b : String) : Scope where
  workflow := []
  job := .null
  matrix := [(.str "a", .str a), (.str "b", .str b)]

theorem templates_are_filled_bindings :
    ((fill (bindingsScope "1" "2") "" bindingsTemplate.text).perform {}).1 = .ok "1 2" := by
  have found : (substituteEach (bindingsScope "1" "2") "" bindingsTemplate.expressions).perform {} =
      (.ok ["1", "2"], _) := perform_eq_of_toOption (by decide +kernel)
  have whole : bindingsTemplate.filled ["1", "2"] = "1 2" := by decide +kernel
  rw [(templates_are_filled _ _ _ _).1 _ _ found (by decide +kernel), whole]

def nestedScope : Scope := bindingsScope "$\x7b\x7b matrix.b \x7d\x7d" "x"

/-- A value that holds the next placeholder gets the next value into it. -/
theorem filled_inside_a_value :
    ((substituteEach nestedScope "" bindingsTemplate.expressions).perform {}).1.toOption =
        some ["$\x7b\x7b matrix.b \x7d\x7d", "x"] ∧
      bindingsTemplate.filled ["$\x7b\x7b matrix.b \x7d\x7d", "x"] =
        "$\x7b\x7b matrix.b \x7d\x7d x" ∧
      ((fill nestedScope "" bindingsTemplate.text).perform {}).1.toOption =
        some "x $\x7b\x7b matrix.b \x7d\x7d" := by
  decide +kernel

end Rehearsal
