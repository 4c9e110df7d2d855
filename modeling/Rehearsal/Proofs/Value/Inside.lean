import Rehearsal.Expression.Placeholder
import Rehearsal.Proofs.Workflow.Needs
import Rehearsal.Value.Coercion

/-! The values that are reached from a value by way of items and entries, and the expressions in
their texts. -/

namespace Rehearsal.Value

/-- That a value is reached in another one by way of items and entries. -/
inductive Inside : Value → Value → Prop
  | self (v : Value) : Inside v v
  | item {v whole : Value} {items : List Value} (member : whole ∈ items) (inside : Inside v whole) :
      Inside v (list items)
  | entry {v : Value} {e : Scalar × Value} {entries : List (Scalar × Value)} (member : e ∈ entries)
      (inside : Inside v e.2) : Inside v (map entries)
  | content {v content : Value} (inside : Inside v content) : Inside v (again content)

theorem Inside.trans {u v w : Value} (first : Inside u v) (rest : Inside v w) : Inside u w := by
  induction rest with
  | self => exact first
  | item member _ ih => exact .item member ih
  | entry member _ ih => exact .entry member ih
  | content _ ih => exact .content ih

theorem inside_opened (v : Value) : Inside v.opened v := by
  unfold opened
  split
  · exact .content (.self _)
  · exact .self _

def Uses (Allowed : String → Prop) (v : Value) : Prop :=
  ∀ part, Inside part v → ∀ text, part.expressionText = .ok text →
    ∀ expression ∈ Expression.Placeholder.extract text, Allowed expression

namespace Uses

variable {Allowed : String → Prop} {v : Value} {entries : Mapping}

theorem all (v : Value) : v.Uses fun _ => True := fun _ _ _ _ _ _ => trivial

theorem of_inside {part : Value} (uses : v.Uses Allowed) (inside : Inside part v) :
    part.Uses Allowed := fun other own => uses other (own.trans inside)

theorem mono {Wider : String → Prop} (uses : v.Uses Allowed)
    (wider : ∀ expression, Allowed expression → Wider expression) : v.Uses Wider :=
  fun part inside text told expression member =>
    wider expression (uses part inside text told expression member)

theorem text {text : String} (uses : v.Uses Allowed) (told : v.expressionText = .ok text) :
    ∀ expression ∈ Expression.Placeholder.extract text, Allowed expression :=
  uses v (.self v) text told

theorem null : Value.null.Uses Allowed := by
  intro part inside text told
  cases inside
  cases told
  nofun

theorem opened (uses : v.Uses Allowed) : v.opened.Uses Allowed := uses.of_inside (inside_opened v)

theorem item {items : List Value} (uses : (Value.list items).Uses Allowed) {v : Value}
    (member : v ∈ items) : v.Uses Allowed := uses.of_inside (.item member (.self v))

theorem entry (uses : (Value.map entries).Uses Allowed) {e : Scalar × Value}
    (member : e ∈ entries) : e.2.Uses Allowed := uses.of_inside (.entry member (.self _))

theorem mapping (uses : v.Uses Allowed) (opened : v.mapping? = some entries) :
    (Value.map entries).Uses Allowed := by
  have content := uses.opened
  unfold mapping? at opened
  split at opened
  · next stated same =>
    cases opened
    rwa [same] at content
  · cases opened

theorem mappingD (uses : v.Uses Allowed) : (Value.map (v.mapping?.getD [])).Uses Allowed := by
  cases opened : v.mapping? with
  | some entries => exact uses.mapping opened
  | none =>
    intro part inside text told
    cases inside with
    | self =>
      cases told
      nofun
    | entry member => cases member

theorem find (uses : (Value.map entries).Uses Allowed) {key : Scalar} {value : Value}
    (found : Table.find? key entries = some value) : value.Uses Allowed := by
  obtain ⟨spelling, member, -⟩ := Table.mem_of_find?_eq_some found
  exact uses.entry member

theorem findD (uses : (Value.map entries).Uses Allowed) (key : Scalar) :
    ((Table.find? key entries).getD .null).Uses Allowed := by
  cases found : Table.find? key entries with
  | none => exact null
  | some value => exact uses.find found

theorem fieldD (uses : v.Uses Allowed) (name : String) :
    ((v.field? name).getD .null).Uses Allowed := by
  unfold field?
  cases opened : v.mapping? with
  | none => exact null
  | some entries => exact (uses.mapping opened).findD _

theorem member {name : String} {value : Value} (uses : v.Uses Allowed)
    (found : Step.member name v = .ok value) : value.Uses Allowed := by
  unfold Step.member at found
  split at found
  · next entries same =>
    cases found
    have content := uses.opened
    rw [same] at content
    exact content.findD _
  · cases found

end Uses
end Rehearsal.Value
