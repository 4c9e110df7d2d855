import Rehearsal.Proofs.Json.Restored
import Rehearsal.Proofs.Step.Frame
import Rehearsal.Proofs.Json.Parsed
import Rehearsal.Proofs.Text.Cut
import Rehearsal.Proofs.Variable.Reference

/-! A step gives a list by its mock, or by a line in its file. In both cases the list is recorded as
its text, which is JSON on one line: `Step.Gives.recorded`. -/

namespace Rehearsal

open Play

/-! ### The last word -/

namespace Table

variable {κ α : Type} [BEq κ]

theorem putAll_append (entries others : List (κ × α)) (t : Table κ α) :
    putAll (entries ++ others) t = putAll others (putAll entries t) := List.foldl_append ..

variable [LawfulBEq κ] {key : κ} {value : α}

theorem find?_putAll_of_absent {entries : List (κ × α)} (absent : ∀ entry ∈ entries, entry.1 ≠ key)
    (t : Table κ α) : find? key (putAll entries t) = find? key t := by
  induction entries generalizing t with
  | nil => rfl
  | cons first rest ih =>
    obtain ⟨own, others⟩ := List.forall_mem_cons.mp absent
    exact (ih others _).trans (find?_put_of_ne own.symm ..)

theorem find?_putAll_of_last (before : List (κ × α)) (value : α) {after : List (κ × α)}
    (last : ∀ entry ∈ after, entry.1 ≠ key) (t : Table κ α) :
    find? key (putAll (before ++ (key, value) :: after) t) = some value := by
  rw [putAll_append]
  exact (find?_putAll_of_absent last _).trans (find?_put_self ..)

end Table

/-! ### Lists as texts -/

namespace Json

variable {spacing : Spacing} {items : List Value}

theorem getLast?_of_renderItems {text : List Char}
    (written : renderItems spacing items = .ok text) : text.getLast? = some ']' := by
  induction items generalizing text with
  | nil =>
    cases written
    rfl
  | cons x xs ih =>
    rw [renderItems] at written
    obtain ⟨first, own, written⟩ := bind_eq_ok written
    obtain ⟨rest, others, written⟩ := bind_eq_ok written
    cases written
    rw [List.getLast?_append, ih others]
    rfl

theorem ends_of_text {text : String} (told : Json.text spacing (.list items) = .ok text) :
    text.toList.head? = some '[' ∧ text.toList.getLast? = some ']' := by
  cases items with
  | nil =>
    cases told
    exact ⟨rfl, rfl⟩
  | cons x xs =>
    have opened : (Value.list (x :: xs)).opened = .list (x :: xs) := rfl
    rw [Json.text, opened, render] at told
    cases own : render spacing x with
    | error u =>
      rw [own] at told
      cases told
    | ok first =>
      cases others : renderItems spacing xs with
      | error u =>
        rw [own, others] at told
        cases told
      | ok rest =>
        rw [own, others] at told
        cases told
        refine ⟨by simp, ?_⟩
        simp [List.getLast?_cons, getLast?_of_renderItems others]

end Json

theorem Outputs.ofLine?_list {name text : String} (named : Reference.IsName name)
    {spacing : Json.Spacing} {items : List Value}
    (told : Json.text spacing (.list items) = .ok text) :
    ofLine? (name ++ "=" ++ text).toList = some (name, text) := by
  obtain ⟨first, last⟩ := Json.ends_of_text told
  have visible {c : Char} (member : c ∈ name.toList) : Text.isBlank c = false :=
    Expression.isBlank_of_isPartChar (named.isPartChar c member)
  have bracket : ∀ c, some c = some '[' ∨ some c = some ']' → Text.isBlank c = false := by
    rintro c (same | same) <;> cases same <;> decide
  have whole : Text.trim text.toList = text.toList :=
    Text.trim_eq_self (fun c member => bracket c (.inl (member.symm.trans first)))
      fun c member => bracket c (.inr (member.symm.trans last))
  have plain : Text.trim name.toList = name.toList :=
    Text.trim_eq_self (fun c member => visible (List.mem_of_head? member))
      fun c member => visible (List.mem_of_getLast? member)
  have line : (name ++ "=" ++ text).toList = name.toList ++ '=' :: text.toList := by simp
  have trimmed : Text.trim (name.toList ++ '=' :: text.toList) =
      name.toList ++ '=' :: text.toList := by
    refine Text.trim_eq_self (fun c member => ?_) fun c member => bracket c (.inr ?_)
    · rw [List.head?_append_of_ne_nil _ named.nonempty] at member
      exact visible (List.mem_of_head? member)
    · rw [List.getLast?_append, List.getLast?_cons, last] at member
      exact member.symm
  rw [ofLine?, line, trimmed, Text.cutAt?_append (named.not_mem (by decide)), Option.map_some]
  dsimp only
  rw [plain, whole, String.ofList_toList, String.ofList_toList]

theorem Outputs.ofText_eq (text : String) :
    ofText text = Table.ofList ((Text.lines text).filterMap fun line => ofLine? line.toList) := by
  rw [ofText, Text.lines, List.filterMap_map]
  simp only [Function.comp_def, String.toList_ofList]

/-! ### Steps -/

namespace Step

/-- That a step gives a list as an output: its mock returns the list under the name, or its file has
a line with the name and the text of the list, and nothing after it is of the same name. -/
inductive Gives (site : Site) (stepId name : String) (items : List Value) (s t : Session) : Prop
  | mock {step : Value} {directory action : String} {m : Mock} {given : Table String String}
      {u : Session} {before after : Mapping}
      (called : (inputs site step stepId).perform s = (.ok given, u))
      (returned : m.respond u.registry.calls ⟨given, directory, stepId, u.policy.dryRun⟩ =
        .ok (.map (before ++ (.str name, .list items) :: after)))
      (last : ∀ entry ∈ after, entry.1.plain ≠ .ok name)
      (ran : (runMock site step stepId directory action m).perform s = (.ok (), t))
  | file {report : Report} {bytes : List UInt8} {text : String} {before after : List String}
      {result : Except Fault Outcome} (written : report.written = some bytes)
      (told : (Value.list items).expressionText = .ok text)
      (lines : Text.lines (Text.ofBytes bytes) = before ++ (name ++ "=" ++ text) :: after)
      (last : ∀ line ∈ after, ∀ value, Outputs.ofLine? line.toList ≠ some (name, value))
      (ran : (finish site stepId report).perform s = (result, t))

variable {site : Site} {stepId name : String} {items : List Value} {s t : Session}

theorem mem_of_mockOutputs {entries : Mapping} {outputs : List (String × String)}
    (told : mockOutputs entries = .ok outputs) :
    ∀ output ∈ outputs, ∃ entry ∈ entries, entry.1.plain = .ok output.1 := by
  induction entries generalizing outputs with
  | nil =>
    cases told
    exact nofun
  | cons entry rest ih =>
    obtain ⟨key, value⟩ := entry
    rw [mockOutputs] at told
    obtain ⟨name, own, told⟩ := bind_eq_ok told
    obtain ⟨text, written, told⟩ := bind_eq_ok told
    obtain ⟨others, more, told⟩ := bind_eq_ok told
    cases told
    refine List.forall_mem_cons.mpr ⟨⟨_, List.mem_cons_self, own⟩, fun output member => ?_⟩
    obtain ⟨entry, inside, same⟩ := ih more output member
    exact ⟨entry, List.mem_cons_of_mem _ inside, same⟩

theorem exists_of_mockOutputs {before after : Mapping} {key : Scalar} {value : Value}
    {outputs : List (String × String)}
    (told : mockOutputs (before ++ (key, value) :: after) = .ok outputs) :
    ∃ first name text rest, key.plain = .ok name ∧ value.expressionText = .ok text ∧
      mockOutputs after = .ok rest ∧ outputs = first ++ (name, text) :: rest := by
  induction before generalizing outputs with
  | nil =>
    rw [List.nil_append, mockOutputs] at told
    obtain ⟨name, own, told⟩ := bind_eq_ok told
    obtain ⟨text, written, told⟩ := bind_eq_ok told
    obtain ⟨rest, more, told⟩ := bind_eq_ok told
    cases told
    exact ⟨[], name, text, rest, own, written, more, rfl⟩
  | cons entry before ih =>
    rw [List.cons_append, mockOutputs] at told
    obtain ⟨other, -, told⟩ := bind_eq_ok told
    obtain ⟨text, -, told⟩ := bind_eq_ok told
    obtain ⟨outputs, more, told⟩ := bind_eq_ok told
    cases told
    obtain ⟨first, found⟩ := ih more
    exact ⟨(other, text) :: first, by simpa using found⟩

theorem recorded_of_runMock {step : Value} {directory action : String} {m : Mock}
    {given : Table String String} {u : Session} {before after : Mapping}
    (called : (inputs site step stepId).perform s = (.ok given, u))
    (returned : m.respond u.registry.calls ⟨given, directory, stepId, u.policy.dryRun⟩ =
      .ok (.map (before ++ (.str name, .list items) :: after)))
    (last : ∀ entry ∈ after, entry.1.plain ≠ .ok name)
    (ran : (runMock site step stepId directory action m).perform s = (.ok (), t)) :
    ∃ text, (Value.list items).expressionText = .ok text ∧
      t.context.stepOutput? site.job stepId name = some text := by
  rw [runMock, perform_bind_ok called, perform_get_bind, perform_bind_ok (perform_call ..),
    returned] at ran
  dsimp only at ran
  obtain ⟨outputs, v, fits, ran⟩ := perform_bind_eq_ok ran
  rw [perform_fit] at fits
  cases told : mockOutputs (before ++ (.str name, .list items) :: after) with
  | error refusal =>
    rw [told] at fits
    cases fits
  | ok stated =>
    rw [told] at fits
    cases fits
    obtain ⟨first, own, text, rest, named, written, others, rfl⟩ := exists_of_mockOutputs told
    obtain rfl : name = own := Except.ok.inj named
    refine ⟨text, written, ?_⟩
    have found : Table.find? name (Table.ofList (first ++ (name, text) :: rest)) = some text := by
      refine Table.find?_putAll_of_last first text (fun output member same => ?_) _
      obtain ⟨entry, inside, plain⟩ := mem_of_mockOutputs others output member
      exact last entry inside (same ▸ plain)
    exact (records_of_recordOutputs (log_prepares ..) ran).stepOutput? found

theorem recorded_of_finish {report : Report} {bytes : List UInt8} {text : String}
    {before after : List String} {result : Except Fault Outcome} (named : Reference.IsName name)
    (written : report.written = some bytes) (told : (Value.list items).expressionText = .ok text)
    (lines : Text.lines (Text.ofBytes bytes) = before ++ (name ++ "=" ++ text) :: after)
    (last : ∀ line ∈ after, ∀ value, Outputs.ofLine? line.toList ≠ some (name, value))
    (ran : (finish site stepId report).perform s = (result, t)) :
    t.context.stepOutput? site.job stepId name = some text := by
  let read (line : String) := Outputs.ofLine? line.toList
  have stated : Outputs.ofFile report.written =
      Table.ofList (before.filterMap read ++ (name, text) :: after.filterMap read) := by
    have own : read (name ++ "=" ++ text) = some (name, text) := Outputs.ofLine?_list named told
    rw [written, Outputs.ofFile, Outputs.ofText_eq, lines, List.filterMap_append,
      List.filterMap_cons_some own]
  have found : Table.find? name
      (Table.ofList (before.filterMap read ++ (name, text) :: after.filterMap read)) =
        some text := by
    refine Table.find?_putAll_of_last _ text (fun output member same => ?_) _
    obtain ⟨line, inside, own⟩ := List.mem_filterMap.mp member
    exact last line inside output.2 (same ▸ own)
  exact (stated ▸ records_of_finish ran).stepOutput? found

theorem Gives.recorded (gives : Gives site stepId name items s t)
    (named : Reference.IsName name) : ∃ text, (Value.list items).expressionText = .ok text ∧
      t.context.stepOutput? site.job stepId name = some text := by
  cases gives with
  | mock called returned last ran => exact recorded_of_runMock called returned last ran
  | file written told lines last ran =>
    exact ⟨_, told, recorded_of_finish named written told lines last ran⟩

end Step

end Rehearsal
