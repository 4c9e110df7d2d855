import Rehearsal.Yaml.Lexer
import Rehearsal.Yaml.Tag

/-! The tokens of a document make up tagged scalars, sequences and mappings, which are numbered in
the order in which they start. An alias gives the number of the node with its anchor, so a node may
be part of several nodes, and of itself. -/

namespace Rehearsal.Yaml

/-- What a node is made of. The parts are given by their numbers. -/
inductive Content where
  | scalar (text : String)
  | sequence (items : List Nat)
  | mapping (entries : List (Nat × Nat))
  deriving DecidableEq, Repr

structure Node where
  tag : Tag
  content : Content
  deriving DecidableEq, Repr

abbrev Graph := Array Node

namespace Graph

def empty : Node := ⟨.null, .scalar ""⟩

def node (g : Graph) (n : Nat) : Node := g[n]?.getD empty

def entries (g : Graph) (n : Nat) : List (Nat × Nat) :=
  match (g.node n).content with
  | .mapping entries => entries
  | _ => []

def fill (n : Nat) (content : Content) (g : Graph) : Graph :=
  g.modify n fun node => { node with content }

end Graph

namespace Node

def maxDepth : Nat := 489

structure Reading where
  lexer : Lexer
  nodes : Graph := #[]
  depth : Nat := 0
  anchors : List (String × Nat) := []
  handles : List (String × String) := []

abbrev Reader (α : Type) := StateT Reading (Except Refusal) α

namespace Reader

def peek : Reader (Option Token) := do
  let lexer ← (← get).lexer.ready
  modify fun r => { r with lexer }
  return lexer.waiting.head?

def skip : Reader Unit := modify fun r => { r with lexer := r.lexer.drop }

def accept (token : Token) : Reader Bool := do
  if (← peek) == some token then
    skip
    return true
  else return false

def expect (token : Token) : Reader Unit := do
  if !(← accept token) then throw .malformed

def isNext (tokens : List Token) : Reader Bool := do
  return (← peek).any tokens.contains

def enter (anchor : Option String) (node : Node) : Reader Nat := do
  let r ← get
  let n := r.nodes.size
  match anchor with
  | none => set { r with nodes := r.nodes.push node }
  | some name =>
    if (r.anchors.lookup name).isSome then throw .malformed
    set { r with nodes := r.nodes.push node, anchors := (name, n) :: r.anchors }
  return n

def collect (anchor : Option String) (tag : Tag) (content : Reader Content) : Reader Nat := do
  let n ← enter anchor ⟨tag, .sequence []⟩
  if maxDepth ≤ (← get).depth then throw .tooDeep
  modify fun r => { r with depth := r.depth + 1 }
  let content ← content
  modify fun r => { r with depth := r.depth - 1, nodes := r.nodes.fill n content }
  return n

def aliased (name : String) : Reader Nat := do
  match (← get).anchors.lookup name with
  | some n => return n
  | none => throw .malformed

def anchor : Reader (Option String) := do
  match ← peek with
  | some (.anchor name) =>
    skip
    return some name
  | _ => return none

/-- Takes a tag, if one comes: its handle, if it has one, and the rest of its name. -/
def tag : Reader (Option (Option String × String)) := do
  match ← peek with
  | some (.tag handle suffix) =>
    skip
    return some (handle, suffix)
  | _ => return none

def tagName : Option (Option String × String) → Reader (Option String)
  | none => return none
  | some (none, suffix) => return some suffix
  | some (some handle, suffix) => do
    match (← get).handles.lookup handle with
    | some start => return some (start ++ suffix)
    | none => throw .malformed

def properties : Reader (Option String × Option String) := do
  match ← anchor with
  | some name =>
    let stated ← tag
    return (some name, ← tagName stated)
  | none =>
    let stated ← tag
    let name ← if stated.isSome then anchor else pure none
    return (name, ← tagName stated)

end Reader

def tagOr (stated : Option String) (default : Tag) : Tag :=
  match stated with
  | some name => if name == "!" then default else Tag.ofName name
  | none => default

/-- The node of a scalar. A single exclamation mark makes any scalar be recognized by its text. -/
def ofScalar (stated : Option String) (text : String) (plain : Bool) : Node :=
  let tag := match stated with
    | some name => if name == "!" then Tag.ofPlain text else Tag.ofName name
    | none => if plain then Tag.ofPlain text else .str
  ⟨tag, .scalar text⟩

/-- Where a node stands, which decides what it may be. -/
inductive Place where
  | flow
  | block
  /-- At a key or value of a block mapping, where the items of a sequence need no indentation. -/
  | entry
  deriving DecidableEq, Repr

open Reader

mutual

def read : (fuel : Nat) → Place → Reader Nat
  | 0, _ => throw .malformed
  | fuel + 1, place => do
    if let some (.alias name) ← peek then
      skip
      return ← aliased name
    let (name, stated) ← properties
    match ← peek with
    | some (.scalar text plain) =>
      skip
      enter name (ofScalar stated text plain)
    | some .blockEntry =>
      if place == .entry then
        collect name (tagOr stated .seq) (return .sequence (← looseItems fuel))
      else leftOut name stated
    | some .flowSequenceStart =>
      skip
      collect name (tagOr stated .seq) (return .sequence (← flowItems fuel true))
    | some .flowMappingStart =>
      skip
      collect name (tagOr stated .map) (return .mapping (← flowEntries fuel true))
    | some .blockSequenceStart =>
      if place == .flow then leftOut name stated
      else
        skip
        collect name (tagOr stated .seq) (return .sequence (← blockItems fuel))
    | some .blockMappingStart =>
      if place == .flow then leftOut name stated
      else
        skip
        collect name (tagOr stated .map) (return .mapping (← blockEntries fuel))
    | _ => leftOut name stated

def leftOut (name stated : Option String) : Reader Nat := do
  if name.isNone && stated.isNone then throw .malformed
  enter name (ofScalar stated "" true)

/-- Reads a node unless one of several tokens comes, before which nothing is written. -/
def readUnless : (fuel : Nat) → (ends : List Token) → Place → Reader Nat
  | 0, _, _ => throw .malformed
  | fuel + 1, ends, place => do
    if ← isNext ends then enter none Graph.empty else read fuel place

def blockItems : (fuel : Nat) → Reader (List Nat)
  | 0 => throw .malformed
  | fuel + 1 => do
    if ← accept .blockEntry then
      let item ← readUnless fuel [.blockEntry, .blockEnd] .block
      return item :: (← blockItems fuel)
    else
      expect .blockEnd
      return []

def looseItems : (fuel : Nat) → Reader (List Nat)
  | 0 => throw .malformed
  | fuel + 1 => do
    if ← accept .blockEntry then
      let item ← readUnless fuel [.blockEntry, .key, .value, .blockEnd] .block
      return item :: (← looseItems fuel)
    else return []

def blockEntries : (fuel : Nat) → Reader (List (Nat × Nat))
  | 0 => throw .malformed
  | fuel + 1 => do
    let ends := [Token.key, .value, .blockEnd]
    if ← accept .key then
      let key ← readUnless fuel ends .entry
      let value ← if ← accept .value then readUnless fuel ends .entry else enter none Graph.empty
      return (key, value) :: (← blockEntries fuel)
    else
      expect .blockEnd
      return []

/-- Reads the items of a flow sequence and its end. An item may be a mapping of one entry. -/
def flowItems : (fuel : Nat) → (first : Bool) → Reader (List Nat)
  | 0, _ => throw .malformed
  | fuel + 1, first => do
    if ← accept .flowSequenceEnd then return []
    if !first then expect .flowEntry
    if ← accept .key then
      let item ← collect none .map (return .mapping [← flowPair fuel])
      return item :: (← flowItems fuel false)
    else if ← accept .flowSequenceEnd then return []
    else
      let item ← read fuel .flow
      return item :: (← flowItems fuel false)

def flowPair : (fuel : Nat) → Reader (Nat × Nat)
  | 0 => throw .malformed
  | fuel + 1 => do
    let key ← readUnless fuel [.value, .flowEntry, .flowSequenceEnd] .flow
    let value ← if ← accept .value then readUnless fuel [.flowEntry, .flowSequenceEnd] .flow
      else enter none Graph.empty
    return (key, value)

def flowEntries : (fuel : Nat) → (first : Bool) → Reader (List (Nat × Nat))
  | 0, _ => throw .malformed
  | fuel + 1, first => do
    if ← accept .flowMappingEnd then return []
    if !first then expect .flowEntry
    if ← accept .key then
      let key ← readUnless fuel [.value, .flowEntry, .flowMappingEnd] .flow
      let value ← if ← accept .value then readUnless fuel [.flowEntry, .flowMappingEnd] .flow
        else enter none Graph.empty
      return (key, value) :: (← flowEntries fuel false)
    else if ← accept .flowMappingEnd then return []
    else
      let key ← read fuel .flow
      let value ← enter none Graph.empty
      return (key, value) :: (← flowEntries fuel false)

end

/-- Reads the directives before a document. There is at most one version, and its first number is
one; each handle stands once. -/
def directives : (fuel : Nat) → (versioned : Bool) → Reader Unit
  | 0, _ => throw .malformed
  | fuel + 1, versioned => do
    match ← peek with
    | some (.directive (.version major)) =>
      skip
      if versioned || major != 1 then throw .malformed
      directives fuel true
    | some (.directive (.tagHandle handle start)) =>
      skip
      if ((← get).handles.lookup handle).isSome then throw .malformed
      modify fun r => { r with handles := (handle, start) :: r.handles }
      directives fuel versioned
    | some (.directive .other) =>
      skip
      directives fuel versioned
    | _ => return

def skipEnds : (fuel : Nat) → Reader Unit
  | 0 => throw .malformed
  | fuel + 1 => do if ← accept .documentEnd then skipEnds fuel

def standardHandles : List (String × String) := [("!", "!"), ("!!", Tag.standard)]

def startsExplicitly : Option Token → Bool
  | some (.directive _) => true
  | some .documentStart => true
  | _ => false

def explicitDocument (fuel : Nat) : Reader Nat := do
  directives fuel false
  expect .documentStart
  modify fun r => { r with
    handles := r.handles ++ standardHandles.filter fun (h, _) => (r.handles.lookup h).isNone }
  let next ← peek
  if next.isNone || startsExplicitly next || next == some .documentEnd then enter none Graph.empty
  else read fuel .block

def document (fuel : Nat) : Reader (Option Nat) := do
  match ← peek with
  | none => return none
  | some token =>
    let root ←
      if startsExplicitly (some token) then explicitDocument fuel
      else do
        modify fun r => { r with handles := standardHandles }
        read fuel .block
    skipEnds fuel
    if (← peek).isSome then throw .malformed
    return some root

end Node

/-- The nodes of a document and the number of the one at its root. -/
structure Document where
  nodes : Graph
  root : Nat

/-- The only document of a text, if there is one. Each step of reading takes a token, of which
there are at most four for a character. -/
def Document.ofText (text : List Char) : Except Refusal (Option Document) := do
  let (root, r) ← (Node.document (8 * text.length + 64)).run { lexer := Lexer.ofText text }
  return root.map fun root => ⟨r.nodes, root⟩

end Rehearsal.Yaml
