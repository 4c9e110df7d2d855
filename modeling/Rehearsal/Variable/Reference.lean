import Rehearsal.Text.Blank
import Rehearsal.Text.Search

/-! The texts that name an output of a step or of a job, as they stand alone or inside a longer
expression. -/

namespace Rehearsal.Reference

open Rehearsal.Text

def segment? (s : List Char) : Option (List Char × List Char) :=
  match s.takeWhile (· ≠ '.') with
  | [] => none
  | owner => some (owner, s.dropWhile (· ≠ '.'))

def dropLineEnd (s : List Char) : List Char :=
  if s.getLast? = some '\n' then s.dropLast else s

/-- The owner and the name in a text that is a root, an owner, the word for outputs and a name on
one line. -/
def output? (root : String) (text : String) : Option (String × String) := do
  let s ← after? (root.toList ++ ['.']) text.toList
  let (owner, s) ← segment? s
  let s ← after? ".outputs.".toList s
  let name := dropLineEnd s
  if name.isEmpty || name.contains '\n' then none
  else some (String.ofList owner, String.ofList name)

def step? (text : String) : Option (String × String) := output? "steps" text

def job? (text : String) : Option (String × String) := output? "needs" text

def isJobResult (text : String) : Bool :=
  (do
    let s ← after? "needs.".toList text.toList
    let (_, s) ← segment? s
    if dropLineEnd s = ".result".toList then some () else none).isSome

/-- The job and the name in a reference to an output of a needed job at the start of a text. The
name reaches to the end of the line. -/
def jobAtStart? (s : List Char) : Option (String × String) := do
  let s ← after? "needs.".toList s
  let (owner, s) ← segment? s
  let s ← after? ".outputs.".toList s
  match s.takeWhile (· ≠ '\n') with
  | [] => none
  | name => some (String.ofList owner, String.ofList name)

def jobWithin? : List Char → Option (String × String)
  | [] => none
  | c :: s => (jobAtStart? (c :: s)).orElse fun _ => jobWithin? s

/-- The argument of a reading of JSON at the start of a text: a nonempty text up to the first
closing parenthesis. -/
def jsonAtStart? (s : List Char) : Option (List Char) := do
  let s ← after? "fromJSON(".toList s
  let body := s.takeWhile (· ≠ ')')
  if body.isEmpty || (s.dropWhile (· ≠ ')')).isEmpty then none else some body

def jsonWithin? : List Char → Option (List Char)
  | [] => none
  | c :: s => (jsonAtStart? (c :: s)).orElse fun _ => jsonWithin? s

theorem length_jsonAtStart?_lt {s inner : List Char} (h : jsonAtStart? s = some inner) :
    inner.length < s.length := by
  simp only [jsonAtStart?, Option.bind_eq_bind, Option.bind_eq_some_iff] at h
  obtain ⟨rest, found, h⟩ := h
  split at h
  · simp at h
  · obtain rfl := Option.some.inj h
    have shorter := (List.takeWhile_sublist (fun c => decide (c ≠ ')')) (l := rest)).length_le
    have whole := congrArg List.length (after?_eq_some found)
    simp only [List.length_append] at whole
    have start : "fromJSON(".toList.length = 9 := rfl
    omega

theorem length_jsonWithin?_lt {s inner : List Char} (h : jsonWithin? s = some inner) :
    inner.length < s.length := by
  induction s with
  | nil => simp [jsonWithin?] at h
  | cons c s ih =>
    simp only [jsonWithin?] at h
    cases atStart : jsonAtStart? (c :: s) with
    | some found =>
      rw [atStart] at h
      exact Option.some.inj h ▸ length_jsonAtStart?_lt atStart
    | none =>
      rw [atStart] at h
      exact Nat.lt_succ_of_lt (ih h)

/-- The step and the name in a text that is a placeholder around a step output, with or without
its dollar sign. -/
def stepPlaceholder? (text : String) : Option (String × String) := do
  let s := trim text.toList
  let s := match s with
    | '$' :: s => s
    | s => s
  let s ← after? ['\x7b', '\x7b'] s
  let s ← after? "steps.".toList (trimLeft s)
  let (owner, s) ← segment? s
  let s ← after? ".outputs.".toList s
  let rest ← after? ['\x7d', '\x7d'] s.reverse
  let inside := rest.reverse
  let name := match trimRight inside with
    | [] => inside.take 1
    | name => name
  if name.isEmpty || name.contains '\n' then none
  else some (String.ofList owner, String.ofList name)

end Rehearsal.Reference
