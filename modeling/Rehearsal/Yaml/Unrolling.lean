import Rehearsal.Yaml.Meaning

/-! A document whose nodes are inside each other without end has no finite value. Its value shows
each collection that is met inside itself as such, with its content down to some depth. -/

namespace Rehearsal.Yaml

namespace Document

/-- A value, and whether none of its collections contains itself. -/
structure Unrolled where
  value : Value
  finite : Bool

namespace Unrolled

def ofParts (parts : List Unrolled) (make : List Value → Value) : Unrolled :=
  ⟨make (parts.map value), parts.all finite⟩

end Unrolled

/-- A computation that keeps the finite values of nodes. -/
abbrev Unrolling (α : Type) := StateM (Array (Option Value)) α

/-- What a computation on so many nodes gives when no value is known before. -/
def Unrolling.result {α : Type} (count : Nat) (unrolling : Unrolling α) : α :=
  (unrolling.run (Array.replicate count none)).1

/-- The value of a node inside the collections of a path. A collection of the path is not looked
into again; its content is taken from `contents`. -/
def unroll (meanings : Array Meaning) (contents : Array Value) :
    (fuel : Nat) → (path : List Nat) → (n : Nat) → Unrolling Unrolled
  | 0, _, _ => return ⟨.null, true⟩
  | fuel + 1, path, n => do
    if let some value := (← get)[n]?.join then return ⟨value, true⟩
    if path.contains n then return ⟨.again (contents[n]?.getD .null), false⟩
    let part := unroll meanings contents fuel (n :: path)
    let u ← match meanings[n]?.getD (.scalar .null) with
      | .scalar s => pure ⟨.scalar s, true⟩
      | .set members => pure ⟨.set members, true⟩
      | .list items => do
        let parts ← items.mapM part
        pure (.ofParts parts .list)
      | .map entries => do
        let parts ← entries.mapM fun (_, value) => part value
        pure (.ofParts parts fun values => .map ((entries.map (·.1)).zip values))
      | .pairs entries => do
        let keys ← entries.mapM fun (key, _) => part key
        let parts ← entries.mapM fun (_, value) => part value
        pure ⟨.list (keys.zipWith (fun key part => .pair key.value part.value) parts),
          (keys ++ parts).all Unrolled.finite⟩
    if u.finite then modify fun values => values.setIfInBounds n (some u.value)
    return u

/-- The values of all nodes, with so many levels of collections inside themselves. -/
def contents (meanings : Array Meaning) : (levels : Nat) → Array Value
  | 0 => meanings.map fun
    | .map _ => .map []
    | _ => .list []
  | levels + 1 =>
    let inside := contents meanings levels
    let all := (List.range meanings.size).mapM (unroll meanings inside (meanings.size + 1) [])
    ((Unrolling.result meanings.size all).map Unrolled.value).toArray

/-- How many levels of collections inside themselves are unrolled. What is asked of a workflow is
never further from its root. -/
def levels : Nat := 8

def value (d : Document) : Except Refusal Value := do
  let meanings ← d.meanings
  let root (inside : Array Value) : Unrolled :=
    Unrolling.result meanings.size (unroll meanings inside (meanings.size + 1) [] d.root)
  let once := root #[]
  if once.finite then return once.value else return (root (contents meanings levels)).value

end Document

end Rehearsal.Yaml
