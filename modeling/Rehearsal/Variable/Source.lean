import Rehearsal.Variable.Reference

/-! An expression in a command is not evaluated: its text decides where its value comes from. -/

namespace Rehearsal

inductive Source where
  | menu (options : List String)
  | input (name : String)
  | secret (name : String)
  | environment (name : String)
  /-- A well-known value that the user gives, with a suggestion. -/
  | suggestion (text default : String)
  | json (inner : List Char)
  | output (job name : String)
  | other
  deriving DecidableEq, Repr

namespace Source

def menus : List (String × List String) :=
  [("github.ref_type", ["branch", "tag"]),
    ("github.event_name",
      ["push", "pull_request", "workflow_dispatch", "schedule", "release", "create", "delete"])]

/-- The starts of expressions that have a text and a suggestion of their own. -/
def suggestions : List (String × String × String) :=
  [("github.ref_name", "Enter branch/tag name", "main"),
    ("github.sha", "Enter commit SHA", "abc123def456"),
    ("github.workspace", "Enter workspace path", "/home/runner/work/repo/repo")]

def ofStart? (expression : String) : Option Source :=
  ((menus.find? (·.1 == expression)).map fun (_, options) => menu options).or <|
  ((Text.rest? "github.event.inputs." expression).map input).or <|
  ((Text.rest? "secrets." expression).map secret).or <|
  ((Text.rest? "env." expression).map environment).or <|
  (suggestions.find? fun (start, _) => Text.startsWith expression start).map
    fun (_, text, default) => suggestion text default

def of (expression : String) : Source :=
  match ofStart? expression with
  | some source => source
  | none =>
    match Reference.jsonWithin? expression.toList with
    | some inner => json (Text.trim inner)
    | none =>
      match Reference.jobWithin? expression.toList with
      | some (job, name) => output job name
      | none => other

theorem ofStart?_ne_json (expression : String) (inner : List Char) :
    ofStart? expression ≠ some (json inner) := by
  intro h
  simp only [ofStart?, Option.or_eq_some_iff, Option.map_eq_some_iff] at h
  grind

theorem length_lt_of_json {expression : String} {inner : List Char}
    (h : of expression = json inner) : inner.length < expression.length := by
  unfold of at h
  split at h
  · next source found => exact absurd (h ▸ found) (ofStart?_ne_json _ _)
  · split at h
    · next body found =>
      cases h
      exact Nat.lt_of_le_of_lt (Text.length_trim_le _) (Reference.length_jsonWithin?_lt found)
    · split at h <;> cases h

end Source
end Rehearsal
