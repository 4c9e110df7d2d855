import Rehearsal.Yaml.Merge
import Rehearsal.Yaml.ScalarValue

/-! A node stands for a value as its tag says. Collections are filled in the order in which they are
met, starting at the root, and the scalars in a collection are read when it is filled; this decides
which of several refusals is reported. -/

namespace Rehearsal.Yaml

namespace Document

/-- What a node stands for. The parts are given by their numbers. -/
inductive Meaning where
  | scalar (s : Rehearsal.Scalar)
  | list (items : List Nat)
  | map (entries : Table Rehearsal.Scalar Nat)
  | set (members : List Rehearsal.Scalar)
  | pairs (entries : List (Nat × Nat))

namespace Meaning

/-- A collection with a tag before it is filled; other tags are those of scalars. -/
def unfilled? : Tag → Option Meaning
  | .map => some (map [])
  | .set => some (set [])
  | .seq => some (list [])
  | .orderedMap => some (pairs [])
  | .pairs => some (pairs [])
  | _ => none

end Meaning

/-- What is known while the nodes of a document get their meaning. -/
structure Draft where
  nodes : Graph
  meanings : Array (Option Meaning)
  /-- The collections that have been met and not filled, the latest first. -/
  unfilled : List Nat := []

abbrev Drafting (α : Type) := StateT Draft (Except Refusal) α

/-- The text of a node: of a scalar, or of the node under the value key of a mapping. -/
def text (g : Graph) : (fuel n : Nat) → Except Refusal String
  | 0, _ => .error .tooDeep
  | fuel + 1, n =>
    match (g.node n).content with
    | .scalar s => .ok s
    | .sequence _ => .error .malformed
    | .mapping entries =>
      match entries.find? fun (key, _) => (g.node key).tag == .value with
      | some (_, value) => text g fuel value
      | none => .error .malformed

/-- The scalar that a node stands for. Unless mappings are inside each other without end, finding
its text takes no more steps than there are nodes. -/
def scalarOf (g : Graph) (n : Nat) : Except Refusal Rehearsal.Scalar := do
  let node := g.node n
  if !Scalar.isTag node.tag then throw .malformed
  let s ← text g (g.size + 1) n
  match node.tag, node.content with
  | .timestamp, .mapping _ => throw .wrongKind
  | tag, _ => Scalar.ofTag tag s

def keep (n : Nat) (meaning : Meaning) : Drafting Unit :=
  modify fun d => { d with meanings := d.meanings.setIfInBounds n (some meaning) }

/-- Gives a node its meaning when it is first met. A collection is not filled yet. -/
def meet (n : Nat) : Drafting Meaning := do
  match (← get).meanings[n]?.join with
  | some meaning => return meaning
  | none =>
    match Meaning.unfilled? ((← get).nodes.node n).tag with
    | some meaning =>
      keep n meaning
      modify fun d => { d with unfilled := n :: d.unfilled }
      return meaning
    | none =>
      let meaning := Meaning.scalar (← scalarOf (← get).nodes n)
      keep n meaning
      return meaning

def meetEntries : List (Nat × Nat) → Table Rehearsal.Scalar Nat →
    Drafting (Table Rehearsal.Scalar Nat)
  | [], table => return table
  | (key, value) :: rest, table => do
    match ← meet key with
    | .scalar s =>
      let _ ← meet value
      meetEntries rest (Table.put s value table)
    | _ => throw .malformed

/-- Meets the keys and values of a list of mappings with one entry each. -/
def meetPairs : List Nat → Drafting (List (Nat × Nat))
  | [] => return []
  | item :: rest => do
    match ((← get).nodes.node item).content with
    | .mapping [(key, value)] =>
      let _ ← meet key
      let _ ← meet value
      return (key, value) :: (← meetPairs rest)
    | _ => throw .malformed

def filled (n : Nat) : Meaning → Drafting Meaning
  | .scalar s => return .scalar s
  | .list _ => do
    match ((← get).nodes.node n).content with
    | .sequence items =>
      for item in items do
        let _ ← meet item
      return .list items
    | _ => throw .malformed
  | .pairs _ => do
    match ((← get).nodes.node n).content with
    | .sequence items => return .pairs (← meetPairs items)
    | _ => throw .malformed
  | .map _ => return .map (← table)
  | .set _ => return .set ((← table).map (·.1))
where
  table : Drafting (Table Rehearsal.Scalar Nat) := do
    match ((← get).nodes.node n).content with
    | .mapping _ =>
      let nodes ← (← get).nodes.withoutMerges n
      modify fun d => { d with nodes }
      meetEntries (nodes.entries n) []
    | _ => throw .malformed

def fillOne (n : Nat) : Drafting Unit := do
  let meaning ← meet n
  keep n (← filled n meaning)

/-- Fills the collections that have been met, and those that are met meanwhile. Every time but the
last one more node is met. -/
def fillAll : (fuel : Nat) → Drafting Unit
  | 0 => throw .tooDeep
  | fuel + 1 => do
    match (← get).unfilled.reverse with
    | [] => return
    | met =>
      modify fun d => { d with unfilled := [] }
      for n in met do
        fillOne n
      fillAll fuel

def meanings (d : Document) : Except Refusal (Array Meaning) := do
  let count := d.nodes.size
  let fill : Drafting Unit := do
    let _ ← meet d.root
    fillAll (count + 1)
  let ((), draft) ← fill.run { nodes := d.nodes, meanings := Array.replicate count none }
  return draft.meanings.map fun meaning => meaning.getD (.scalar .null)

end Document
end Rehearsal.Yaml
