import Rehearsal.Yaml.Node

/-! The entries of the mappings under the merge keys of a mapping become entries of that mapping,
and come before its own. Where several mappings are merged, the first one has the last word. A
mapping may be merged into itself, which adds the entries that it has besides. -/

namespace Rehearsal.Yaml

namespace Graph

abbrev Merging (α : Type) := StateT Graph (Except Refusal) α

/-- Splits off the first entry with a merge key: its value and the other entries. -/
def firstMerge? (g : Graph) : List (Nat × Nat) → Option (Nat × List (Nat × Nat))
  | [] => none
  | (key, value) :: rest =>
    if (g.node key).tag == .merge then some (value, rest)
    else (firstMerge? g rest).map fun (merged, others) => (merged, (key, value) :: others)

def plainKey (n : Nat) (g : Graph) : Graph :=
  if (g.node n).tag == .value then g.modify n fun node => { node with tag := .str } else g

mutual

def flatten : (fuel n : Nat) → Merging Unit
  | 0, _ => throw .tooDeep
  | fuel + 1, n => do
    let merged ← takeMerges fuel n
    modify fun g => g.fill n (.mapping (merged ++ g.entries n))
    modify fun g => (g.entries n).foldl (fun g entry => g.plainKey entry.1) g

/-- Takes the merge keys out of a mapping and gives the entries that they stand for. -/
def takeMerges : (fuel n : Nat) → Merging (List (Nat × Nat))
  | 0, _ => throw .tooDeep
  | fuel + 1, n => do
    match (← get).firstMerge? ((← get).entries n) with
    | none => return []
    | some (value, others) =>
      modify (Graph.fill n (.mapping others))
      let merged ← match ((← get).node value).content with
        | .mapping _ => flattened fuel value
        | .sequence items => do
          let parts ← items.mapM (flattened fuel)
          pure parts.reverse.flatten
        | .scalar _ => throw .malformed
      return merged ++ (← takeMerges fuel n)

def flattened : (fuel n : Nat) → Merging (List (Nat × Nat))
  | 0, _ => throw .tooDeep
  | fuel + 1, n => do
    match ((← get).node n).content with
    | .mapping _ =>
      flatten fuel n
      return (← get).entries n
    | _ => throw .malformed

end

def entryCount (g : Graph) : Nat :=
  g.foldl (fun count node => match node.content with
    | .mapping entries => count + entries.length
    | _ => count) 0

def isSpecial (g : Graph) (key : Nat) : Bool :=
  (g.node key).tag == .merge || (g.node key).tag == .value

/-- The nodes after the merge keys of a mapping have been replaced. Each merge key is taken out
before the mapping under it is looked at, so three steps for each entry are enough. -/
def withoutMerges (n : Nat) (g : Graph) : Except Refusal Graph :=
  if (g.entries n).any fun (key, _) => g.isSpecial key then
    (·.2) <$> (flatten (3 * g.entryCount + 3) n).run g
  else .ok g

end Graph
end Rehearsal.Yaml
