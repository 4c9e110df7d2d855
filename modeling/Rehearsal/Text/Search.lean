/-! Searches over character lists, each by structural recursion on the text that is searched. -/

namespace Rehearsal.Text

def after? : (start s : List Char) → Option (List Char)
  | [], s => some s
  | _ :: _, [] => none
  | a :: start, c :: s => if a = c then after? start s else none

theorem after?_eq_some {start s rest : List Char} (h : after? start s = some rest) :
    s = start ++ rest := by
  induction start generalizing s with
  | nil => simpa [after?] using h
  | cons a start ih =>
    cases s with
    | nil => simp [after?] at h
    | cons c s =>
      simp only [after?] at h
      split at h
      · next same => rw [same, List.cons_append, ih h]
      · simp at h

@[simp]
theorem after?_append (start rest : List Char) : after? start (start ++ rest) = some rest := by
  induction start with
  | nil => rfl
  | cons c start ih => simpa [after?] using ih

/-- The texts before and after the first occurrence of `pattern` in `s`. -/
def splitAt? (pattern : List Char) : List Char → Option (List Char × List Char)
  | [] => if pattern = [] then some ([], []) else none
  | c :: s =>
    match after? pattern (c :: s) with
    | some rest => some ([], rest)
    | none => (splitAt? pattern s).map fun (before, rest) => (c :: before, rest)

theorem splitAt?_eq_some {pattern s before rest : List Char}
    (h : splitAt? pattern s = some (before, rest)) : s = before ++ pattern ++ rest := by
  induction s generalizing before rest with
  | nil =>
    simp only [splitAt?] at h
    split at h
    · next empty => simp_all
    · simp at h
  | cons c s ih =>
    simp only [splitAt?] at h
    split at h
    · next found =>
      cases h
      exact after?_eq_some found
    · obtain ⟨⟨before', rest'⟩, found, eq⟩ := Option.map_eq_some_iff.mp h
      cases eq
      rw [ih found]
      rfl

def occurs (pattern s : List Char) : Bool := (splitAt? pattern s).isSome

def replaceFirst (pattern replacement s : List Char) : List Char :=
  match splitAt? pattern s with
  | some (before, rest) => before ++ replacement ++ rest
  | none => s

/-- Replaces every occurrence of a nonempty `pattern`, from left to right and without overlap;
`skip` characters of an occurrence already replaced are passed over first. -/
def replaceFrom (pattern replacement : List Char) : (skip : Nat) → List Char → List Char
  | _, [] => []
  | skip + 1, _ :: s => replaceFrom pattern replacement skip s
  | 0, c :: s =>
    match after? pattern (c :: s) with
    | some _ => replacement ++ replaceFrom pattern replacement (pattern.length - 1) s
    | none => c :: replaceFrom pattern replacement 0 s

def replaceAll (pattern replacement s : List Char) : List Char :=
  replaceFrom pattern replacement 0 s

def splitOn (separator : Char) : List Char → List (List Char)
  | [] => [[]]
  | c :: s =>
    if c = separator then [] :: splitOn separator s
    else match splitOn separator s with
      | [] => [[c]]
      | part :: parts => (c :: part) :: parts

def cutAt? (separator : Char) : List Char → Option (List Char × List Char)
  | [] => none
  | c :: s =>
    if c = separator then some ([], s)
    else (cutAt? separator s).map fun (before, rest) => (c :: before, rest)

def join (separator : List Char) : List (List Char) → List Char
  | [] => []
  | [part] => part
  | part :: parts => part ++ separator ++ join separator parts

def startsWith (s start : String) : Bool := (after? start.toList s.toList).isSome

def rest? (start s : String) : Option String := (after? start.toList s.toList).map String.ofList

def contains (s pattern : String) : Bool := occurs pattern.toList s.toList

def lines (s : String) : List String := (splitOn '\n' s.toList).map String.ofList

end Rehearsal.Text
