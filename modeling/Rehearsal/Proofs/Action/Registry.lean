import Rehearsal.Proofs.Context.Lookup
import Rehearsal.Proofs.Step.Frame

/-! What a registry gives for an action is what was registered last under its name, or else what was
found when it was first looked for. The files of the directory play no part after that, whatever
becomes of them: `mocks_are_remembered`. -/

namespace Rehearsal

open Play

def Session.withFiles (files : Table String MockFile) (s : Session) : Session :=
  { s with registry := { s.registry with files } }

namespace Registry

/-! ### Looking for a mock -/

def search (r : Registry) (name : String) : Option Mock :=
  match r.directory, Table.find? (Action.fileName name) r.files with
  | some _, some (.mock m) => some m
  | _, _ => none

theorem exists_perform_load (r : Registry) (name : String) (s : Session) :
    ∃ t, (r.load name).perform s = (.ok (r.search name), t) ∧ t.registry = s.registry := by
  unfold load search path?
  cases r.directory with
  | none => exact ⟨s, rfl, rfl⟩
  | some directory =>
    dsimp only [Option.map_some, info, warning]
    rw [perform_bind_ok (perform_log ..)]
    cases Table.find? (Action.fileName name) r.files with
    | none =>
      dsimp only
      rw [perform_bind_ok (perform_log ..), perform_bind_ok (perform_log ..)]
      exact ⟨_, rfl, rfl⟩
    | some file =>
      dsimp only
      rw [perform_bind_ok (perform_log ..)]
      cases file with
      | mock m => exact ⟨_, rfl, rfl⟩
      | noMock =>
        dsimp only
        rw [perform_bind_ok (perform_log ..), perform_bind_ok (perform_log ..)]
        exact ⟨_, rfl, rfl⟩
      | broken =>
        dsimp only
        rw [perform_bind_ok (perform_log ..)]
        exact ⟨_, rfl, rfl⟩

variable {action : String} {s : Session}

theorem perform_get_of_known {found : Option Mock}
    (known : Table.find? (Action.name action) s.registry.known = some found) :
    (get action).perform s = (.ok found, s) := by
  rw [get, perform_get_bind]
  dsimp only
  rw [known]
  rfl

theorem exists_perform_get_of_unknown
    (unknown : Table.find? (Action.name action) s.registry.known = none) :
    ∃ t, (get action).perform s = (.ok (s.registry.search (Action.name action)), t) ∧
      t.registry.known =
        Table.put (Action.name action) (s.registry.search (Action.name action))
          s.registry.known := by
  obtain ⟨t, loaded, same⟩ := exists_perform_load s.registry (Action.name action) s
  rw [get, perform_get_bind]
  dsimp only
  rw [unknown]
  dsimp only
  rw [perform_bind_ok loaded, perform_bind_ok (perform_modify ..)]
  refine ⟨_, rfl, ?_⟩
  rw [keep, same, Action.name_name]

theorem exists_perform_register (action : String) (m : Mock) (s : Session) :
    ∃ t, (register action (some m)).perform s = (.ok (), t) ∧
      t.registry.known = Table.put (Action.name action) (some m) s.registry.known := by
  rw [register, perform_bind_ok (perform_modify ..)]
  exact ⟨_, perform_log .., rfl⟩

/-! ### Uses of a registry -/

/-- What happens to a registry: a mock is registered, or something that cannot be called; a mock is
looked for; the files in the mocks directory change. -/
inductive Use where
  | register (action : String) (candidate : Option Mock)
  | get (action : String)
  | change (files : Table String MockFile)

namespace Use

def after (s : Session) : Use → Session
  | register action candidate => ((Registry.register action candidate).perform s).2
  | get action => ((Registry.get action).perform s).2
  | change files => s.withFiles files

def all (uses : List Use) (s : Session) : Session := uses.foldl after s

def registers? (name : String) : Use → Option Mock
  | register action candidate => if Action.name action = name then candidate else none
  | get _ => none
  | change _ => none

def finds? (name : String) (s : Session) : Use → Option (Option Mock)
  | register _ _ => none
  | get action => if Action.name action = name then some (s.registry.search name) else none
  | change _ => none

def registered? (name : String) : List Use → Option Mock
  | [] => none
  | u :: rest => (registered? name rest).or (u.registers? name)

/-- What there is when a mock is first looked for under a name. -/
def found? (name : String) (s : Session) : List Use → Option (Option Mock)
  | [] => none
  | u :: rest => (u.finds? name s).or (found? name (u.after s) rest)

def remembered (name : String) (s : Session) (uses : List Use) : Option Mock :=
  (registered? name uses).or
    ((found? name s uses).getD ((all uses s).registry.search name))

def Settles (name : String) : Use → Prop
  | register action candidate => Action.name action = name ∧ candidate.isSome = true
  | get action => Action.name action = name
  | change _ => False

variable {name : String}

/-- What is known for a name after a use: what is registered, or else what was known before, or else
what is found. -/
theorem known_after (u : Use) (name : String) (s : Session) :
    Table.find? name (u.after s).registry.known =
      ((u.registers? name).map some).or
        ((Table.find? name s.registry.known).or (u.finds? name s)) := by
  cases u with
  | register action candidate =>
    cases candidate with
    | none => simp [after, Registry.register, registers?, finds?]
    | some m =>
      obtain ⟨t, registered, known⟩ := exists_perform_register action m s
      rw [after, registered, known, Table.find?_put, registers?, finds?, Option.or_none]
      by_cases own : Action.name action = name
      · simp [own]
      · simp [own]
  | get action =>
    rw [after, registers?, finds?, Option.map_none, Option.none_or]
    cases known : Table.find? (Action.name action) s.registry.known with
    | some found =>
      rw [perform_get_of_known known]
      by_cases own : Action.name action = name
      · rw [← own, known]
        rfl
      · rw [if_neg own, Option.or_none]
    | none =>
      obtain ⟨t, given, kept⟩ := exists_perform_get_of_unknown known
      rw [given, kept, Table.find?_put]
      by_cases own : Action.name action = name
      · subst own
        simp [known]
      · simp [own]
  | change files => simp [after, Session.withFiles, registers?, finds?]

theorem known_all (uses : List Use) (name : String) (s : Session) :
    Table.find? name (all uses s).registry.known =
      ((registered? name uses).map some).or
        ((Table.find? name s.registry.known).or (found? name s uses)) := by
  induction uses generalizing s with
  | nil => simp [all, registered?, found?]
  | cons u rest ih =>
    rw [all, List.foldl_cons, ← all, ih, known_after, registered?, found?, Option.map_or,
      Option.or_assoc, Option.or_assoc, Option.or_assoc]

theorem isSome_of_settles {uses : List Use} {u : Use} (member : u ∈ uses)
    (settles : u.Settles name) (s : Session) :
    (registered? name uses).isSome = true ∨ (found? name s uses).isSome = true := by
  induction member generalizing s with
  | head rest =>
    rw [registered?, found?, Option.isSome_or, Option.isSome_or]
    cases u with
    | register action candidate =>
      obtain ⟨own, callable⟩ := settles
      exact .inl (by simp [registers?, own, callable])
    | get action =>
      have own : Action.name action = name := settles
      exact .inr (by simp [finds?, own])
    | change files => exact settles.elim
  | tail first member ih =>
    rw [registered?, found?, Option.isSome_or, Option.isSome_or]
    exact (ih (first.after s)).imp (Bool.or_eq_true_iff.mpr <| .inl ·)
      (Bool.or_eq_true_iff.mpr <| .inr ·)

end Use

/-! ### What is remembered -/

section

variable {uses : List Use} {name : String} {found : Option Mock}

theorem known_of_fresh (fresh : s.registry.known = []) (uses : List Use) (name : String) :
    Table.find? name (Use.all uses s).registry.known =
      ((Use.registered? name uses).map some).or (Use.found? name s uses) := by
  rw [Use.known_all, fresh, Table.find?, Option.none_or]

theorem remembered_of_known (fresh : s.registry.known = [])
    (known : Table.find? name (Use.all uses s).registry.known = some found) :
    Use.remembered name s uses = found := by
  rw [known_of_fresh fresh] at known
  unfold Use.remembered
  cases registered : Use.registered? name uses with
  | some m =>
    rw [registered] at known
    exact Option.some.inj known
  | none =>
    rw [registered, Option.map_none, Option.none_or] at known
    rw [known]
    rfl

theorem remembered_of_unknown (fresh : s.registry.known = [])
    (unknown : Table.find? name (Use.all uses s).registry.known = none) :
    Use.remembered name s uses = (Use.all uses s).registry.search name := by
  rw [known_of_fresh fresh, Option.or_eq_none_iff, Option.map_eq_none_iff] at unknown
  rw [Use.remembered, unknown.1, unknown.2]
  rfl

theorem isSome_known_of_settles (fresh : s.registry.known = []) {u : Use} (member : u ∈ uses)
    (settles : u.Settles name) :
    (Table.find? name (Use.all uses s).registry.known).isSome = true := by
  rw [known_of_fresh fresh, Option.isSome_or, Option.isSome_map, Bool.or_eq_true]
  exact Use.isSome_of_settles member settles s

end

theorem exists_perform_get (fresh : s.registry.known = []) (uses : List Use) (action : String) :
    ∃ t, (get action).perform (Use.all uses s) =
      (.ok (Use.remembered (Action.name action) s uses), t) := by
  cases known : Table.find? (Action.name action) (Use.all uses s).registry.known with
  | some found =>
    rw [remembered_of_known fresh known]
    exact ⟨_, perform_get_of_known known⟩
  | none =>
    rw [remembered_of_unknown fresh known]
    obtain ⟨t, given, -⟩ := exists_perform_get_of_unknown known
    exact ⟨t, given⟩

theorem register_fails {candidate : Option Mock} {fault : Fault} {t : Session}
    (failed : (register action candidate).perform s = (.error fault, t)) :
    candidate = none ∧ fault = .notCallable action ∧ t = s := by
  cases candidate with
  | none =>
    cases failed
    exact ⟨rfl, rfl, rfl⟩
  | some m =>
    obtain ⟨t, registered, -⟩ := exists_perform_register action m s
    cases registered.symm.trans failed

end Registry
end Rehearsal
