import Rehearsal.Command.Report
import Rehearsal.Proofs.Context.Lookup
import Rehearsal.Proofs.Text.Cut
import Rehearsal.Proofs.Text.Encoded

/-! A command writes outputs into a file, each on a line of its own and with blanks around its name
and its value. What is read from the file are these outputs, whatever ends the lines and whatever
other lines there are; of several values under one name the last one counts: `ofFile_written`. -/

namespace Rehearsal.Outputs

open Text

/-! ### Lines -/

/-- Blanks on one line. -/
structure Space where
  chars : List Char
  blank : ∀ c ∈ chars, isBlank c = true
  unbroken : Unbroken chars

/-- A text on one line that neither begins nor ends with a blank. It can be empty. -/
structure Word where
  chars : List Char
  first : ∀ c ∈ chars.head?, isBlank c = false
  last : ∀ c ∈ chars.getLast?, isBlank c = false
  unbroken : Unbroken chars

/-- A line of a file with outputs: one that states none, or a name and a value around an equals
sign, with blanks before and after both. -/
inductive Line where
  | noise (text : List Char) (unbroken : Unbroken text)
      (idle : (∀ c ∈ text, isBlank c = true) ∨ '=' ∉ text)
  | output (name value : Word) (free : '=' ∉ name.chars)
      (beforeName afterName beforeValue afterValue : Space)

namespace Line

def chars : Line → List Char
  | noise text _ _ => text
  | output name value _ beforeName afterName beforeValue afterValue =>
    (beforeName.chars ++ name.chars ++ afterName.chars) ++
      '=' :: (beforeValue.chars ++ value.chars ++ afterValue.chars)

def stated? : Line → Option (String × String)
  | noise .. => none
  | output name value .. => some (String.ofList name.chars, String.ofList value.chars)

theorem unbroken (l : Line) : Unbroken l.chars := by
  cases l with
  | noise text unbroken idle => exact unbroken
  | output name value free beforeName afterName beforeValue afterValue =>
    have sign : Unbroken ['='] := ⟨by decide, by decide⟩
    exact ((beforeName.unbroken.append name.unbroken).append afterName.unbroken).append
      (sign.append ((beforeValue.unbroken.append value.unbroken).append afterValue.unbroken))

end Line

theorem Word.trim_spaced (w : Word) (before after : Space) :
    trim (before.chars ++ w.chars ++ after.chars) = w.chars := by
  rw [trim_append_blanks after.blank, trim_blank_append before.blank,
    trim_eq_self w.first w.last]

theorem Space.not_mem (s : Space) {c : Char} (visible : isBlank c = false) : c ∉ s.chars :=
  not_mem_of_blank s.blank visible

theorem ofLine?_of_idle {text : List Char} (idle : (∀ c ∈ text, isBlank c = true) ∨ '=' ∉ text) :
    ofLine? text = none := by
  have without : '=' ∉ text := by
    rcases idle with blank | without
    · exact fun member => Bool.false_ne_true (blank '=' member)
    · exact without
  have trimmed : '=' ∉ trim text := by
    intro member
    obtain ⟨before, after, same, -⟩ := exists_trim text
    refine without ?_
    rw [same]
    exact List.mem_append_left _ (List.mem_append_right _ member)
  rw [ofLine?, cutAt?_of_not_mem trimmed]
  rfl

/-- A line states its output. The blanks at its ends are cut off the whole line, and those at the
equals sign off the name and the value. -/
theorem Line.ofLine?_chars (l : Line) : ofLine? l.chars = l.stated? := by
  cases l with
  | noise text unbroken idle => exact ofLine?_of_idle idle
  | output name value free beforeName afterName beforeValue afterValue =>
    let left := beforeName.chars ++ name.chars ++ afterName.chars
    let right := beforeValue.chars ++ value.chars ++ afterValue.chars
    have visible : isBlank '=' = false := by decide
    have whole : '=' ∉ left := by
      simp only [left, List.mem_append, not_or]
      exact ⟨⟨beforeName.not_mem visible, free⟩, afterName.not_mem visible⟩
    have trimmed : '=' ∉ trimLeft left := fun member =>
      whole ((List.dropWhile_sublist _).mem member)
    change ofLine? (left ++ '=' :: right) = _
    rw [ofLine?, trim_append_cons visible, cutAt?_append trimmed, Option.map_some]
    dsimp only
    rw [trim_trimLeft, trim_trimRight, name.trim_spaced, value.trim_spaced]
    rfl

/-! ### Texts -/

/-- The outputs that the lines of a text state, each time that they do. -/
def stated (s : List Char) : List (String × String) :=
  (splitOn '\n' (unifyLineEnds s)).filterMap ofLine?

theorem stated_of_unbroken {line : List Char} (whole : Unbroken line) :
    stated line = (ofLine? line).toList := by
  have unified : unifyLineEnds line = line := by
    simpa [unifyLineEnds] using unifyLineEnds_append whole []
  rw [stated, unified, splitOn_of_not_mem whole.feed]
  cases own : ofLine? line <;> simp [own]

theorem stated_of_feed (rest : List Char) : stated ('\n' :: rest) = stated rest := by
  have unified : unifyLineEnds ('\n' :: rest) = '\n' :: unifyLineEnds rest := rfl
  have first : splitOn '\n' ('\n' :: unifyLineEnds rest) =
    [] :: splitOn '\n' (unifyLineEnds rest) := rfl
  rw [stated, unified, first]
  rfl

/-- The end of a line parts its output from the others. A carriage return before a line feed ends
the line together with it; the empty line that is lost then states nothing. -/
theorem stated_append {line : List Char} (whole : Unbroken line) (ending : LineEnd)
    (rest : List Char) :
    stated (line ++ ending.chars ++ rest) = (ofLine? line).toList ++ stated rest := by
  have parted {unified : List Char}
      (ends : unifyLineEnds (ending.chars ++ rest) = '\n' :: unified) :
      stated (line ++ ending.chars ++ rest) =
        (ofLine? line).toList ++ (splitOn '\n' unified).filterMap ofLine? := by
    rw [stated, List.append_assoc, unifyLineEnds_append whole, ends, splitOn_append whole.feed,
      List.filterMap_cons]
    cases ofLine? line <;> rfl
  cases ending with
  | lf => exact parted rfl
  | crlf => exact parted rfl
  | cr =>
    by_cases feed : ∃ more, rest = '\n' :: more
    · obtain ⟨more, rfl⟩ := feed
      rw [stated_of_feed]
      exact parted rfl
    · refine parted ?_
      change unifyLineEnds ('\r' :: rest) = _
      rw [unifyLineEnds]
      exact fun more same => feed ⟨more, same⟩

/-! ### Files -/

def written (ends : Nat → LineEnd) : List Line → List Char
  | [] => []
  | [line] => line.chars
  | line :: next :: rest =>
    line.chars ++ (ends 0).chars ++ written (fun i => ends (i + 1)) (next :: rest)

theorem stated_written (ends : Nat → LineEnd) (lines : List Line) :
    stated (written ends lines) = lines.filterMap Line.stated? := by
  induction lines generalizing ends with
  | nil => rfl
  | cons line rest ih =>
    have own : (ofLine? line.chars).toList ++ rest.filterMap Line.stated? =
        (line :: rest).filterMap Line.stated? := by
      rw [line.ofLine?_chars, List.filterMap_cons]
      cases line.stated? <;> rfl
    cases rest with
    | nil =>
      rw [written, stated_of_unbroken line.unbroken, ← own]
      exact (List.append_nil _).symm
    | cons next rest => rw [written, stated_append line.unbroken, ih, own]

theorem ofFile_eq (s : List Char) :
    ofFile (some (String.ofList s).toUTF8.data.toList) = Table.ofList (stated s) := by
  rw [ofFile, ofText, Text.ofBytes, decode_toUTF8, String.toList_ofList, stated]

/-- What is read from a file is what its lines state: every name once, in the order in which the
names come first, and under each its last value. -/
theorem ofFile_written (ends : Nat → LineEnd) (lines : List Line) :
    (ofFile (some (String.ofList (written ends lines)).toUTF8.data.toList)).map (·.1) =
        ((lines.filterMap Line.stated?).map (·.1)).eraseDups ∧
      ∀ name, Table.find? name
          (ofFile (some (String.ofList (written ends lines)).toUTF8.data.toList)) =
        Table.find? name (lines.filterMap Line.stated?).reverse := by
  rw [ofFile_eq, stated_written]
  exact ⟨Table.map_fst_ofList _, fun name => Table.find?_ofList_reverse name _⟩

example : ofFile (some "tag=v1\r\n\u2003note = a=b \r# none\ntag=v2".toUTF8.data.toList) =
    [("tag", "v2"), ("note", "a=b")] := by decide +kernel

end Rehearsal.Outputs
