import Rehearsal.Session.Basic

/-! A mock is looked for in the mocks directory when its action is first met, and what was found
then holds for the rest of the run. -/

namespace Rehearsal

open Play

namespace Registry

/-- Loads the mock of an action. That the file system cannot look at the path, as at one that is too
long, is left out. -/
def load (r : Registry) (name : String) : Play (Option Mock) := do
  match r.path? name with
  | none => return none
  | some path =>
    info ("Looking for mock at: " ++ path)
    match Table.find? (Action.fileName name) r.files with
    | none =>
      info ("No mock file found for " ++ name)
      info ("Expected file: " ++ path)
      return none
    | some file =>
      info ("Loading mock from: " ++ path)
      match file with
      | .mock m => return some m
      | .noMock =>
        warning ("Mock file for " ++ name ++ " does not define a callable 'mock'")
        warning ("Mock file location: " ++ path)
        return none
      | .broken =>
        warning ("Error loading mock for " ++ name ++ ": <detail>")
        return none

def get (action : String) : Play (Option Mock) := do
  let r := (← MonadState.get).registry
  let name := Action.name action
  match Table.find? name r.known with
  | some m => return m
  | none =>
    let m ← r.load name
    modify fun s => { s with registry := s.registry.keep name m }
    return m

/-- Registers a mock for an action. There is none if what was to be registered cannot be called. -/
def register (action : String) (candidate : Option Mock) : Play Unit := do
  match candidate with
  | none => throw (.notCallable action)
  | some m =>
    modify fun s => { s with registry := s.registry.keep action (some m) }
    debug ("Registered mock: " ++ Action.name action)

def call (m : Mock) (invocation : Invocation) : Play Reply := do
  if let some name := m.record then record (.mock name invocation)
  let earlier := (← MonadState.get).registry.calls
  modify fun s => { s with registry := s.registry.count }
  return m.respond earlier invocation

end Registry
end Rehearsal
