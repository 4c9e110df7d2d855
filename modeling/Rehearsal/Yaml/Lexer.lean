import Rehearsal.Text.Bytes
import Rehearsal.Yaml.Cursor
import Rehearsal.Yaml.Scalar

/-! A document is read as tokens before it becomes a tree. Blocks are told by their columns. A
scalar, alias or flow collection may turn out to be a key when a colon follows it on its line; the
tokens that start a key, and perhaps a mapping, are then put in before it. A token is handed out as
soon as nothing can be put in before it any more, and no further text is read until then. -/

namespace Rehearsal.Yaml

inductive Directive where
  | version (major : Nat)
  | tagHandle (handle start : String)
  | other
  deriving DecidableEq, Repr

/-- A token. Blocks that are shown by indentation have tokens for their start and end. -/
inductive Token where
  | directive (d : Directive)
  | documentStart
  | documentEnd
  | blockSequenceStart
  | blockMappingStart
  | blockEnd
  | flowSequenceStart
  | flowSequenceEnd
  | flowMappingStart
  | flowMappingEnd
  | flowEntry
  | blockEntry
  | key
  | value
  | alias (name : String)
  | anchor (name : String)
  /-- A tag by its handle, if it has one, and the rest of its name. -/
  | tag (handle : Option String) (suffix : String)
  /-- A scalar, and whether it stands without quotes or block mark. -/
  | scalar (text : String) (plain : Bool)
  deriving DecidableEq, Repr

structure PossibleKey where
  before : Nat
  required : Bool
  index : Nat
  line : Nat
  column : Nat
  deriving Repr

structure Lexer where
  cursor : Cursor
  flow : Nat := 0
  /-- The column of the innermost block, and those of the blocks around it. -/
  indent : Int := -1
  outer : List Int := []
  keyAllowed : Bool := true
  /-- The places where keys may have started, by the depth of flow collections. -/
  possibleKeys : List (Nat × PossibleKey) := []
  taken : Nat := 0
  waiting : List Token := []
  ended : Bool := false

namespace Lexer

def emit (token : Token) (l : Lexer) : Lexer := { l with waiting := l.waiting ++ [token] }

def insert (before : Nat) (token : Token) (l : Lexer) : Lexer :=
  let earlier := before - l.taken
  { l with waiting := l.waiting.take earlier ++ token :: l.waiting.drop earlier }

def peek (l : Lexer) : Option Char := l.cursor.peek

def inFlow (l : Lexer) : Bool := l.flow != 0

def skip (n : Nat) (l : Lexer) : Lexer := { l with cursor := l.cursor.skip n }

/-! ### Keys -/

def possibleKey? (l : Lexer) : Option PossibleKey := l.possibleKeys.lookup l.flow

/-- Forgets a possible key of the present depth; one that is required cannot be forgotten. -/
def forgetKey (l : Lexer) : Except Refusal Lexer :=
  match l.possibleKey? with
  | some key =>
    if key.required then .error .malformed
    else .ok { l with possibleKeys := l.possibleKeys.filter (·.1 != l.flow) }
  | none => .ok l

def isStale (l : Lexer) (key : PossibleKey) : Bool :=
  key.line != l.cursor.line || l.cursor.index - key.index > 1024

def forgetStale (l : Lexer) : Except Refusal Lexer :=
  if l.possibleKeys.any fun (_, key) => l.isStale key && key.required then .error .malformed
  else .ok { l with possibleKeys := l.possibleKeys.filter fun (_, key) => !l.isStale key }

def rememberKey (l : Lexer) : Except Refusal Lexer :=
  if l.keyAllowed then do
    let l ← l.forgetKey
    let k := l.cursor
    let key : PossibleKey := {
      before := l.taken + l.waiting.length
      required := !l.inFlow && l.indent == k.column
      index := k.index
      line := k.line
      column := k.column }
    return { l with possibleKeys := (l.flow, key) :: l.possibleKeys }
  else .ok l

/-! ### Indentation -/

def endBlocks (column : Int) (l : Lexer) : Lexer :=
  if l.inFlow then l
  else
    let ended := (l.indent :: l.outer).takeWhile (column < ·)
    let left := (l.indent :: l.outer).dropWhile (column < ·)
    { l with
      indent := left.head?.getD (-1)
      outer := left.tail
      waiting := l.waiting ++ List.replicate ended.length .blockEnd }

def startsBlock (column : Nat) (l : Lexer) : Bool := l.indent < column

def startBlock (column : Nat) (l : Lexer) : Lexer :=
  { l with indent := column, outer := l.indent :: l.outer }

/-- Starts a block at the present column with a token, if none is there. -/
def openBlock (token : Token) (l : Lexer) : Lexer :=
  let column := l.cursor.column
  if l.startsBlock column then (l.startBlock column).emit token else l

/-! ### Tokens -/

def take (n : Nat) (token : Token) (l : Lexer) : Lexer := (l.skip n).emit token

def leaveBlocks (l : Lexer) : Except Refusal Lexer := do
  let l ← (l.endBlocks (-1)).forgetKey
  return { l with keyAllowed := false }

def isNameChar (c : Char) : Bool := c.isAlphanum || c == '-' || c == '_'

def isTagChar (c : Char) : Bool := c.isAlphanum || "-;/?:@&=+$,_.!~*'()[]".toList.contains c

def tagBytes : (fuel : Nat) → Cursor → Except Refusal (List UInt8 × Cursor)
  | 0, k => .ok ([], k)
  | fuel + 1, k =>
    if k.peek == some '%' then
      match (k.ahead 1).bind hexDigit?, (k.ahead 2).bind hexDigit? with
      | some a, some b => do
        let (more, k) ← tagBytes fuel (k.skip 3)
        return ((a * 16 + b).toUInt8 :: more, k)
      | _, _ => .error .malformed
    else .ok ([], k)

def tagNameFrom : (fuel : Nat) → Cursor → Scanned
  | 0, k => .ok ([], k)
  | fuel + 1, k =>
    match k.peek with
    | none => .ok ([], k)
    | some c =>
      if c == '%' then do
        let (bytes, after) ← tagBytes (k.rest.length + 1) k
        match String.fromUTF8? ⟨bytes.toArray⟩ with
        | none => throw .malformed
        | some text =>
          let (rest, after) ← tagNameFrom fuel after
          return (text.toList ++ rest, after)
      else if isTagChar c then do
        let (rest, after) ← tagNameFrom fuel k.next
        return (c :: rest, after)
      else .ok ([], k)

def tagName (k : Cursor) : Scanned := do
  let (name, after) ← tagNameFrom (k.rest.length + 1) k
  if after.index == k.index then throw .malformed else return (name, after)

/-- Reads the handle of a tag: an exclamation mark, or a word between two of them. -/
def tagHandle (k : Cursor) : Scanned :=
  if k.peek != some '!' then .error .malformed
  else
    let (word, after) := k.next.takeWhile isNameChar
    if k.next.peek == some ' ' then .ok (['!'], k.next)
    else if after.peek == some '!' then .ok ('!' :: word ++ ['!'], after.next)
    else .error .malformed

def versionNumber (k : Cursor) : Except Refusal (Nat × Cursor) :=
  match k.takeWhile Char.isDigit with
  | ([], _) => .error .malformed
  | (digits, after) =>
    if digits.length ≤ Numeral.maxDigits then
      .ok (Text.numeral 10 (digits.map fun c => c.toNat - '0'.toNat), after)
    else .error .numeral

def directiveBody (name : List Char) (k : Cursor) : Except Refusal (Directive × Cursor) :=
  if name == "YAML".toList then do
    let (major, k) ← versionNumber k.skipSpaces
    if k.peek != some '.' then throw .malformed
    let (_, k) ← versionNumber k.next
    if endsWord k.peek then return (.version major, k) else throw .malformed
  else if name == "TAG".toList then do
    let (handle, k) ← tagHandle k.skipSpaces
    if k.peek != some ' ' then throw .malformed
    let (start, k) ← tagName k.skipSpaces
    if endsWord k.peek then return (.tagHandle (String.ofList handle) (String.ofList start), k)
    else throw .malformed
  else .ok (.other, k.dropWhile (!isBreak ·))

def directive (l : Lexer) : Except Refusal Lexer := do
  let l ← l.leaveBlocks
  let (name, k) := l.cursor.next.takeWhile isNameChar
  if name.isEmpty || !endsWord k.peek then throw .malformed
  let (d, k) ← directiveBody name k
  return { l.emit (.directive d) with cursor := ← restOfLine k }

def separator (token : Token) (l : Lexer) : Except Refusal Lexer := do
  return (← l.leaveBlocks).take 3 token

def openFlow (token : Token) (l : Lexer) : Except Refusal Lexer := do
  let l ← l.rememberKey
  return { l.take 1 token with flow := l.flow + 1, keyAllowed := true }

def closeFlow (token : Token) (l : Lexer) : Except Refusal Lexer := do
  let l ← l.forgetKey
  return { l.take 1 token with flow := l.flow - 1, keyAllowed := false }

def flowEntry (l : Lexer) : Except Refusal Lexer := do
  let l ← l.forgetKey
  return { l.take 1 .flowEntry with keyAllowed := true }

def blockEntry (l : Lexer) : Except Refusal Lexer := do
  let l ← if l.inFlow then .ok l
    else if l.keyAllowed then .ok (l.openBlock .blockSequenceStart)
    else .error .malformed
  let l ← l.forgetKey
  return { l.take 1 .blockEntry with keyAllowed := true }

def explicitKey (l : Lexer) : Except Refusal Lexer := do
  let l ← if l.inFlow then .ok l
    else if l.keyAllowed then .ok (l.openBlock .blockMappingStart)
    else .error .malformed
  let l ← l.forgetKey
  return { l.take 1 .key with keyAllowed := !l.inFlow }

def value (l : Lexer) : Except Refusal Lexer := do
  match l.possibleKey? with
  | some key =>
    let l := { l with possibleKeys := l.possibleKeys.filter (·.1 != l.flow) }
    let l := l.insert key.before .key
    let l :=
      if !l.inFlow && l.startsBlock key.column then
        (l.startBlock key.column).insert key.before .blockMappingStart
      else l
    return { l.take 1 .value with keyAllowed := false }
  | none =>
    let l ← if l.inFlow then .ok l
      else if l.keyAllowed then .ok (l.openBlock .blockMappingStart)
      else .error .malformed
    return { l.take 1 .value with keyAllowed := !l.inFlow }

def named (token : String → Token) (l : Lexer) : Except Refusal Lexer := do
  let l ← l.rememberKey
  let (name, k) := l.cursor.next.takeWhile isNameChar
  let ended := isGap k.peek || k.peek.any fun c => "?:,]\x7d%@\x60".toList.contains c
  if name.isEmpty || !ended then throw .malformed
  return { l.emit (token (String.ofList name)) with cursor := k, keyAllowed := false }

def hasHandle (k : Cursor) : Bool :=
  (k.next.rest.takeWhile fun c => !endsWord (some c)).contains '!'

def tag (l : Lexer) : Except Refusal Lexer := do
  let l ← l.rememberKey
  let k := l.cursor
  let (handle, suffix, k) ←
    if k.ahead 1 == some '<' then do
      let (name, k) ← tagName (k.skip 2)
      if k.peek != some '>' then throw .malformed
      pure (none, name, k.next)
    else if isGap (k.ahead 1) then pure (none, ['!'], k.next)
    else do
      let (handle, k) ← if hasHandle k then tagHandle k else pure (['!'], k.next)
      let (name, k) ← tagName k
      pure (some (String.ofList handle), name, k)
  if !endsWord k.peek then throw .malformed
  return { l.emit (.tag handle (String.ofList suffix)) with cursor := k, keyAllowed := false }

def blockScalar (fold : Bool) (l : Lexer) : Except Refusal Lexer := do
  let l ← l.forgetKey
  let (text, k) ← block fold l.indent l.cursor
  return { l.emit (.scalar (String.ofList text) false) with cursor := k, keyAllowed := true }

def quotedScalar (double : Bool) (l : Lexer) : Except Refusal Lexer := do
  let l ← l.rememberKey
  let (text, k) ← quoted double l.cursor
  return { l.emit (.scalar (String.ofList text) false) with cursor := k, keyAllowed := false }

def plainScalar (l : Lexer) : Except Refusal Lexer := do
  let l ← l.rememberKey
  let p := plain l.inFlow (l.indent + 1) l.cursor
  return { l.emit (.scalar (String.ofList p.text) true) with
    cursor := p.cursor, keyAllowed := p.atLineStart }

def indicators : List Char := "-?:,[]\x7b\x7d#&*!|>'\"%@\x60".toList

def startsPlain (l : Lexer) (c : Char) : Bool :=
  (!isGap (some c) && !indicators.contains c) ||
    (!isGap (l.cursor.ahead 1) && (c == '-' || (!l.inFlow && (c == '?' || c == ':'))))

def tokenAt (c : Char) (l : Lexer) : Except Refusal Lexer :=
  let k := l.cursor
  let atStart := k.column == 0
  let gapFollows := isGap (k.ahead 1)
  if atStart && c == '%' then l.directive
  else if atStart && c == '-' && k.atSeparator then l.separator .documentStart
  else if atStart && c == '.' && k.atSeparator then l.separator .documentEnd
  else if c == '[' then l.openFlow .flowSequenceStart
  else if c == '\x7b' then l.openFlow .flowMappingStart
  else if c == ']' then l.closeFlow .flowSequenceEnd
  else if c == '\x7d' then l.closeFlow .flowMappingEnd
  else if c == ',' then l.flowEntry
  else if c == '-' && gapFollows then l.blockEntry
  else if c == '?' && (l.inFlow || gapFollows) then l.explicitKey
  else if c == ':' && (l.inFlow || gapFollows) then l.value
  else if c == '*' then l.named .alias
  else if c == '&' then l.named .anchor
  else if c == '!' then l.tag
  else if c == '|' && !l.inFlow then l.blockScalar false
  else if c == '>' && !l.inFlow then l.blockScalar true
  else if c == '\'' then l.quotedScalar false
  else if c == '"' then l.quotedScalar true
  else if l.startsPlain c then l.plainScalar
  else .error .malformed

def skipGap : (fuel : Nat) → Lexer → Lexer
  | 0, l => l
  | fuel + 1, l =>
    let k := l.cursor.skipSpaces.skipComment
    match k.lineBreak with
    | ([], _) => { l with cursor := k }
    | (_, k) => skipGap fuel { l with cursor := k, keyAllowed := l.keyAllowed || !l.inFlow }

def step (l : Lexer) : Except Refusal Lexer := do
  let l := skipGap (l.cursor.rest.length + 1) l
  let l ← l.forgetStale
  let l := l.endBlocks l.cursor.column
  match l.peek with
  | none => return { ← l.leaveBlocks with possibleKeys := [], ended := true }
  | some c => l.tokenAt c

def isOpen (l : Lexer) : Bool :=
  l.waiting.isEmpty || l.possibleKeys.any fun (_, key) => key.before == l.taken

/-- Takes tokens until the next one can be handed out or the document has ended. -/
def advance : (fuel : Nat) → Lexer → Except Refusal Lexer
  | 0, _ => .error .malformed
  | fuel + 1, l => do
    if l.ended then return l
    let l ← if l.waiting.isEmpty then pure l else l.forgetStale
    if l.isOpen then advance fuel (← l.step) else return l

/-- Makes the next token the first one that waits, if there is a next one. Each step but the last
takes a character. -/
def ready (l : Lexer) : Except Refusal Lexer := do
  if l.ended then return l
  let l ← if l.waiting.isEmpty then pure l else l.forgetStale
  if l.isOpen then l.advance (l.cursor.rest.length + 3) else return l

def drop (l : Lexer) : Lexer := { l with taken := l.taken + 1, waiting := l.waiting.tail }

/-- A lexer at the start of a text. A byte order mark there is passed over. -/
def ofText (text : List Char) : Lexer :=
  let start : Cursor := { rest := text }
  { cursor := if start.peek == some '\ufeff' then start.next else start }

end Lexer
end Rehearsal.Yaml
