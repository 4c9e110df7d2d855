import Rehearsal.Shell.Script
import Rehearsal.Text.Search

/-! `Token.scan` cuts a script into words, operators and redirections. What stands in quotes, in
parentheses behind a dollar sign and in documents below their command is taken care of here. -/

namespace Rehearsal.Shell

open Rehearsal.Text

inductive Malformed where
  | unclosed (closing : Char)
  | unexpected (line : Nat) (token : String)
  | ended (line : Nat)
  deriving DecidableEq, Repr

inductive Token where
  | word (w : Word)
  | operator (text : String)
  | redirection (r : Word → Redirection) (operator : String)
  /-- A document below its command, which is read in place of a file. -/
  | document (text : Word)
  | arithmetic (expression : List Char)

structure Placed where
  line : Nat
  token : Token

namespace Lexer

def singleQuote : Char := '\x27'
def doubleQuote : Char := '\x22'
def backQuote : Char := '\x60'

def isNameStart (c : Char) : Bool := c.isAlpha || c == '_'

def isNameChar (c : Char) : Bool := c.isAlphanum || c == '_'

def isSpecial (c : Char) : Bool := c.isDigit || "?$#@*!-".toList.contains c

def endsWord (c : Char) : Bool := " \t\n;&|<>()".toList.contains c

inductive Quoting where
  | none
  | single
  | double
  deriving DecidableEq

/-- Splits a text at the character that closes what is open, passing over inner pairs, quotes and
escaped characters. -/
def enclosed (opening closing : Char) :
    (depth : Nat) → Quoting → List Char → Option (List Char × List Char)
  | _, _, [] => Option.none
  | depth, .single, c :: s =>
    (enclosed opening closing depth (if c = singleQuote then .none else .single) s).map
      fun (inner, rest) => (c :: inner, rest)
  | depth, quoting, '\\' :: c :: s =>
    (enclosed opening closing depth quoting s).map fun (inner, rest) => ('\\' :: c :: inner, rest)
  | depth, .double, c :: s =>
    (enclosed opening closing depth (if c = doubleQuote then .none else .double) s).map
      fun (inner, rest) => (c :: inner, rest)
  | depth, .none, c :: s =>
    if c = closing ∧ depth = 0 then some ([], s)
    else
      let depth := if c = opening then depth + 1 else if c = closing then depth - 1 else depth
      let quoting :=
        if c = singleQuote then .single else if c = doubleQuote then .double else .none
      (enclosed opening closing depth quoting s).map fun (inner, rest) => (c :: inner, rest)

/-- Splits a text at the next back quote that is not escaped, and takes the escapes away. -/
def backQuoted : List Char → Option (List Char × List Char)
  | [] => Option.none
  | '\\' :: c :: s =>
    (backQuoted s).map fun (inner, rest) =>
      (if c = backQuote ∨ c = '\\' ∨ c = '$' then c :: inner else '\\' :: c :: inner, rest)
  | c :: s =>
    if c = backQuote then some ([], s)
    else (backQuoted s).map fun (inner, rest) => (c :: inner, rest)

def dollar (quoted : Bool) (s : List Char) : Except Malformed (Part × List Char) :=
  match s with
  | '(' :: '(' :: s =>
    match enclosed '(' ')' 0 .none s with
    | some (inner, ')' :: rest) => .ok (.arithmetic inner quoted, rest)
    | _ =>
      match enclosed '(' ')' 0 .none ('(' :: s) with
      | some (inner, rest) => .ok (.output inner quoted, rest)
      | Option.none => .error (.unclosed ')')
  | '(' :: s =>
    match enclosed '(' ')' 0 .none s with
    | some (inner, rest) => .ok (.output inner quoted, rest)
    | Option.none => .error (.unclosed ')')
  | '\x7b' :: s =>
    match enclosed '\x7b' '\x7d' 0 .none s with
    | some (inner, rest) =>
      let (mark, inner) := match inner with
        | '#' :: c :: inner => if isNameChar c then (['#'], c :: inner) else ([], '#' :: c :: inner)
        | inner => ([], inner)
      let name := match inner with
        | c :: _ => if isNameStart c then inner.takeWhile isNameChar else inner.take 1
        | [] => []
      .ok (.variable name (mark ++ inner.drop name.length) quoted, rest)
    | Option.none => .error (.unclosed '\x7d')
  | c :: rest =>
    if isNameStart c then
      .ok (.variable (s.takeWhile isNameChar) [] quoted, s.dropWhile isNameChar)
    else if isSpecial c then .ok (.variable [c] [] quoted, rest)
    else .ok (.char '$' quoted, s)
  | [] => .ok (.char '$' quoted, [])

/-- Where parts are read: in a bare word, in the operand of a modifier, in double quotes or in a
document. -/
inductive Mode where
  | bare
  | operand
  | quotes
  | document
  deriving DecidableEq

/-- Whether quotes are taken for quotes and everything else is unquoted. -/
def Mode.isBare : Mode → Bool
  | bare | operand => true
  | _ => false

def escapes : Mode → Char → Bool
  | .bare, _ | .operand, _ => true
  | .quotes, c => c = '$' || c = backQuote || c = doubleQuote || c = '\\'
  | .document, c => c = '$' || c = backQuote || c = '\\'

/-- The character that a letter behind a backslash stands for in a text of escapes. -/
def escaped? : Char → Option Char
  | 'a' => some '\x07'
  | 'b' => some '\x08'
  | 'e' => some '\x1b'
  | 'f' => some '\x0c'
  | 'n' => some '\n'
  | 'r' => some '\r'
  | 't' => some '\t'
  | 'v' => some '\x0b'
  | '\\' => some '\\'
  | c => if c = singleQuote ∨ c = doubleQuote then some c else Option.none

/-- The characters up to a single quote, in which letters behind a backslash are escapes. -/
def escapedText : List Char → Option (List Char × List Char)
  | [] => Option.none
  | '\\' :: c :: s =>
    (escapedText s).map fun (inner, rest) =>
      (match escaped? c with
        | some e => e :: inner
        | Option.none => '\\' :: c :: inner, rest)
  | c :: s =>
    if c = singleQuote then some ([], s)
    else (escapedText s).map fun (inner, rest) => (c :: inner, rest)

def parts (mode : Mode) : (fuel : Nat) → List Char → Except Malformed (Word × List Char)
  | 0, s => .ok ([], s)
  | fuel + 1, s => do
    let quoted := !mode.isBare
    match s with
    | [] => if mode = .quotes then throw (.unclosed doubleQuote) else return ([], [])
    | ['\\'] => return ([.char '\\' quoted], [])
    | '\\' :: c :: rest =>
      if c = '\n' then parts mode fuel rest
      else
        let (w, left) ← parts mode fuel rest
        if escapes mode c then return (.char c true :: w, left)
        else return (.char '\\' true :: .char c true :: w, left)
    | '$' :: rest =>
      match mode.isBare, rest with
      | true, '\x27' :: rest =>
        match escapedText rest with
        | some (inner, rest) =>
          let (w, left) ← parts mode fuel rest
          return (.quotes :: Word.literal inner ++ w, left)
        | Option.none => throw (.unclosed singleQuote)
      | true, '\x22' :: rest => parts mode fuel (doubleQuote :: rest)
      | _, rest =>
        let (part, rest) ← dollar quoted rest
        let (w, left) ← parts mode fuel rest
        return (part :: w, left)
    | c :: rest =>
      if c = backQuote then
        match backQuoted rest with
        | some (inner, rest) =>
          let (w, left) ← parts mode fuel rest
          return (.output inner quoted :: w, left)
        | Option.none => throw (.unclosed backQuote)
      else if mode.isBare ∧ c = singleQuote then
        match cutAt? singleQuote rest with
        | some (inner, rest) =>
          let (w, left) ← parts mode fuel rest
          return (.quotes :: Word.literal inner ++ w, left)
        | Option.none => throw (.unclosed singleQuote)
      else if mode.isBare ∧ c = doubleQuote then
        let (inner, rest) ← parts .quotes fuel rest
        let (w, left) ← parts mode fuel rest
        return (.quotes :: inner ++ w, left)
      else if mode = .quotes ∧ c = doubleQuote then return ([], rest)
      else if mode = .bare ∧ endsWord c then return ([], s)
      else
        let (w, left) ← parts mode fuel rest
        return (.char c quoted :: w, left)

def all (mode : Mode) (s : List Char) : Except Malformed Word := do
  return (← parts mode (s.length + 1) s).1

def operators : List String := ["&&", "||", ";;", "\n", ";", "&", "|", "(", ")"]

/-- The redirections by their operators, longer ones first, and the stream they are about. -/
def redirections : List (String × (Nat → Word → Redirection) × Nat) := [
  ("<<<", (fun _ w => .given (w ++ Word.literal ['\n'])), 0),
  ("&>>", (fun _ w => .writeBoth w), 1),
  ("&>", (fun _ w => .writeBoth w), 1),
  (">>", .append, 1),
  (">&", .same, 1),
  (">|", .write, 1),
  ("<&", .same, 0),
  (">", .write, 1),
  ("<", (fun _ w => .read w), 0)]

def withoutTabs (lines : List (List Char)) : List (List Char) :=
  lines.map fun line => line.dropWhile (· = '\t')

/-- Takes the document that ends with a line, out of the lines below the current one: the
document, and the text without it. -/
def takeDocument (ending : List Char) (tabs : Bool) (s : List Char) : List Char × List Char :=
  match cutAt? '\n' s with
  | Option.none => ([], s)
  | some (current, below) =>
    let lines := splitOn '\n' below
    let lines := if tabs then withoutTabs lines else lines
    let document := lines.takeWhile (· ≠ ending)
    let rest := (lines.dropWhile (· ≠ ending)).drop 1
    let document :=
      if rest.isEmpty ∧ document.getLast? = some [] then document.dropLast else document
    (document.flatMap fun line => line ++ ['\n'],
      if rest.isEmpty then current else current ++ '\n' :: join ['\n'] rest)

/-- The characters of a word, quoted or not, and whether any of it is quoted. -/
def delimiter (w : Word) : List Char × Bool :=
  (w.filterMap fun
    | .char c _ => some c
    | _ => Option.none,
    w.any fun
      | .char _ quoted => quoted
      | .quotes => true
      | _ => false)

def document (tabs : Bool) (s : List Char) : Except Malformed (Token × List Char) := do
  let s := s.dropWhile fun c => c = ' ' || c = '\t'
  let (w, rest) ← parts .bare (s.length + 1) s
  let (ending, literal) := delimiter w
  let (text, rest) := takeDocument ending tabs rest
  let text ← if literal then pure (Word.literal text) else all .document text
  return (.document text, rest)

def redirection? (s : List Char) : Option (Token × List Char) := do
  let digits := s.takeWhile Char.isDigit
  let behind := s.drop digits.length
  redirections.findSome? fun (operator, make, usual) => do
    let rest ← after? operator.toList behind
    let descriptor := if digits.isEmpty then usual else (String.ofList digits).toNat?.getD usual
    if operator.front = '&' && !digits.isEmpty then Option.none
    else return (.redirection (make descriptor) operator, rest)

/-- The arithmetic expression in double parentheses at the start, and what follows it. -/
def arithmetic? : List Char → Option (List Char × List Char)
  | '(' :: '(' :: s =>
    match enclosed '(' ')' 0 .none s with
    | some (inner, ')' :: rest) => some (inner, rest)
    | _ => Option.none
  | _ => Option.none

def tokens : (fuel : Nat) → (line : Nat) → List Char → Except Malformed (List Placed)
  | 0, _, _ => .ok []
  | _ + 1, _, [] => .ok []
  | fuel + 1, line, c :: s => do
    if c = ' ' || c = '\t' then tokens fuel line s
    else if c = '#' then tokens fuel line (s.dropWhile (· ≠ '\n'))
    else if c = '\\' && s.head? = some '\n' then tokens fuel (line + 1) s.tail
    else if let some (inner, rest) := arithmetic? (c :: s) then
      return ⟨line, .arithmetic inner⟩ :: (← tokens fuel line rest)
    else
      match after? "<<-".toList (c :: s) with
      | some rest =>
        let (token, rest) ← document true rest
        return ⟨line, token⟩ :: (← tokens fuel line rest)
      | Option.none =>
        match after? "<<".toList (c :: s) with
        | some ('<' :: _) | Option.none =>
          match redirection? (c :: s) with
          | some (token, rest) => return ⟨line, token⟩ :: (← tokens fuel line rest)
          | Option.none =>
            match operators.findSome? fun o => (after? o.toList (c :: s)).map (o, ·) with
            | some (o, rest) =>
              let next := if o = "\n" then line + 1 else line
              return ⟨line, .operator o⟩ :: (← tokens fuel next rest)
            | Option.none =>
              let (w, rest) ← parts .bare (s.length + 2) (c :: s)
              let lines := ((c :: s).take ((c :: s).length - rest.length)).count '\n'
              return ⟨line, .word w⟩ :: (← tokens fuel (line + lines) rest)
        | some rest =>
          let (token, rest) ← document false rest
          return ⟨line, token⟩ :: (← tokens fuel line rest)

end Lexer

def Token.scan (script : List Char) : Except Malformed (List Placed) :=
  Lexer.tokens (script.length + 1) 1 script

end Rehearsal.Shell
