import Rehearsal.Shell.Lexer

/-! `Script.parse` reads the tree of a script from its text. -/

namespace Rehearsal.Shell

namespace Parser

abbrev Reader (α : Type) := List Placed → Except Malformed (α × List Placed)

def reserved : List String :=
  ["if", "then", "elif", "else", "fi", "while", "until", "do", "done", "for", "in", "case", "esac",
    "!", "\x7b", "\x7d"]

def reserved? : Token → Option String
  | .word w => do
    let name := String.ofList (← w.bare?)
    if reserved.contains name then name else none
  | _ => none

def shown : Token → String
  | .word w => String.ofList (Lexer.delimiter w).1
  | .operator o => if o = "\n" then "newline" else o
  | .redirection _ o => o
  | .document _ => "<<"
  | .arithmetic _ => "("

def refuse {α : Type} : Reader α
  | [] => .error (.ended 1)
  | t :: _ => .error (.unexpected t.line (shown t.token))

def operator (text : String) : Reader Unit
  | ⟨line, .operator o⟩ :: rest =>
    if o = text then .ok ((), rest) else refuse (⟨line, .operator o⟩ :: rest)
  | ts => refuse ts

def keyword (name : String) : Reader Unit
  | t :: rest => if reserved? t.token = some name then .ok ((), rest) else refuse (t :: rest)
  | [] => refuse []

def atKeyword (name : String) : List Placed → Bool
  | t :: _ => reserved? t.token == some name
  | [] => false

def atOperator (text : String) : List Placed → Bool
  | ⟨_, .operator o⟩ :: _ => o == text
  | _ => false

def skipLines : List Placed → List Placed
  | ⟨line, .operator o⟩ :: rest =>
    if o = "\n" then skipLines rest else ⟨line, .operator o⟩ :: rest
  | ts => ts

/-- The assignment that a word is: a name, an equals sign and a value. -/
def assignment? (w : Word) : Option (List Char × Word) :=
  let isNamePart : Part → Bool
    | .char c false => Lexer.isNameChar c
    | _ => false
  let name := (w.takeWhile isNamePart).filterMap fun
    | .char c _ => some c
    | _ => none
  match name, w.dropWhile isNamePart with
  | c :: _, .char '=' false :: value => if Lexer.isNameStart c then some (name, value) else none
  | _, _ => none

def redirections : (fuel : Nat) → Reader (List Redirection)
  | fuel + 1, ⟨_, .redirection make _⟩ :: ⟨_, .word w⟩ :: rest => do
    let (further, rest) ← redirections fuel rest
    return (make w :: further, rest)
  | _, ⟨_, .redirection _ _⟩ :: rest => refuse rest
  | fuel + 1, ⟨_, .document text⟩ :: rest => do
    let (further, rest) ← redirections fuel rest
    return (.given text :: further, rest)
  | _, ts => .ok ([], ts)

def redirected (body : Script) : List Redirection → Script
  | [] => body
  | rs => .redirect body rs

structure Simple where
  assignments : List (List Char × Word) := []
  words : List Word := []
  redirections : List Redirection := []

/-- Reads the rest of a test between double brackets; operators are words in it. -/
def test (fuel : Nat) (s : Simple) : Reader Simple :=
  match fuel with
  | 0 => refuse
  | fuel + 1 => fun
    | ⟨_, .word w⟩ :: rest =>
      let s := { s with words := s.words ++ [w] }
      if w.bare? = some [']', ']'] then .ok (s, rest) else test fuel s rest
    | ⟨_, .operator o⟩ :: rest =>
      test fuel { s with words := s.words ++ [Word.literal o.toList] } rest
    | ⟨_, .redirection _ o⟩ :: rest =>
      test fuel { s with words := s.words ++ [Word.literal o.toList] } rest
    | ts => refuse ts

def simple (fuel : Nat) (s : Simple) : Reader Simple :=
  match fuel with
  | 0 => refuse
  | fuel + 1 => fun
    | ⟨_, .word w⟩ :: rest =>
      match s.words, assignment? w with
      | [], some a => simple fuel { s with assignments := s.assignments ++ [a] } rest
      | [], none =>
        if w.bare? = some ['[', '['] then test fuel { s with words := [w] } rest
        else simple fuel { s with words := [w] } rest
      | words, _ => simple fuel { s with words := words ++ [w] } rest
    | ⟨_, .redirection make _⟩ :: ⟨_, .word w⟩ :: rest =>
      simple fuel { s with redirections := s.redirections ++ [make w] } rest
    | ⟨_, .redirection _ _⟩ :: rest => refuse rest
    | ⟨_, .document text⟩ :: rest =>
      simple fuel { s with redirections := s.redirections ++ [.given text] } rest
    | ts => .ok (s, ts)

def words : Reader (List Word)
  | ⟨_, .word w⟩ :: rest => do
    let (ws, rest) ← words rest
    return (w :: ws, rest)
  | ts => .ok ([], ts)

def patterns : Reader (List Word)
  | ⟨_, .word w⟩ :: ⟨_, .operator "|"⟩ :: rest => do
    let (ws, rest) ← patterns rest
    return (w :: ws, rest)
  | ⟨_, .word w⟩ :: ⟨_, .operator ")"⟩ :: rest => .ok ([w], rest)
  | _ :: ts => refuse ts
  | [] => refuse []

mutual

def list : (fuel : Nat) → Reader Script
  | 0, ts => refuse ts
  | fuel + 1, ts => do
    let ts := skipLines ts
    match ts with
    | [] => return (.skip, [])
    | t :: _ =>
      let ends : Bool := match t.token with
        | .operator o => o == ")" || o == ";;"
        | token => (reserved? token).any fun name =>
            ["then", "elif", "else", "fi", "do", "done", "esac", "\x7d"].contains name
      if ends then return (.skip, ts)
      else
        let (first, ts) ← chain fuel ts
        if atOperator ";" ts || atOperator "&" ts || atOperator "\n" ts then
          let (rest, ts) ← list fuel ts.tail
          return (match rest with
            | .skip => first
            | rest => .seq first rest, ts)
        else return (first, ts)

def chain : (fuel : Nat) → Reader Script
  | 0, ts => refuse ts
  | fuel + 1, ts => do
    let (first, ts) ← pipeline fuel ts
    links fuel first ts

def links : (fuel : Nat) → Script → Reader Script
  | 0, _, ts => refuse ts
  | fuel + 1, left, ts => do
    if atOperator "&&" ts then
      let (right, ts) ← pipeline fuel (skipLines ts.tail)
      links fuel (.and left right) ts
    else if atOperator "||" ts then
      let (right, ts) ← pipeline fuel (skipLines ts.tail)
      links fuel (.or left right) ts
    else return (left, ts)

def pipeline : (fuel : Nat) → Reader Script
  | 0, ts => refuse ts
  | fuel + 1, ts => do
    if atKeyword "!" ts then
      let (body, ts) ← pipeline fuel ts.tail
      return (.not body, ts)
    else
      let (first, ts) ← command fuel ts
      if atOperator "|" ts then
        let (rest, ts) ← pipeline fuel (skipLines ts.tail)
        return (.pipe first rest, ts)
      else return (first, ts)

def body : (fuel : Nat) → Reader Script
  | 0, ts => refuse ts
  | fuel + 1, ts => do
    let (script, rest) ← list fuel ts
    match script with
    | .skip => refuse rest
    | script => return (script, rest)

def loopBody : (fuel : Nat) → Reader Script
  | 0, ts => refuse ts
  | fuel + 1, ts => do
    let ((), ts) ← keyword "do" (skipLines ts)
    let (script, ts) ← body fuel ts
    let ((), ts) ← keyword "done" ts
    return (script, ts)

def choice : (fuel : Nat) → Reader Script
  | 0, ts => refuse ts
  | fuel + 1, ts => do
    let (condition, ts) ← body fuel ts
    let ((), ts) ← keyword "then" ts
    let (yes, ts) ← body fuel ts
    if atKeyword "elif" ts then
      let (no, ts) ← choice fuel ts.tail
      return (.choice condition yes no, ts)
    else if atKeyword "else" ts then
      let (no, ts) ← body fuel ts.tail
      let ((), ts) ← keyword "fi" ts
      return (.choice condition yes no, ts)
    else
      let ((), ts) ← keyword "fi" ts
      return (.choice condition yes .skip, ts)

def branches : (fuel : Nat) → Reader (List (List Word × Script))
  | 0, ts => refuse ts
  | fuel + 1, ts => do
    let ts := skipLines ts
    if atKeyword "esac" ts then return ([], ts.tail)
    else
      let ts := if atOperator "(" ts then ts.tail else ts
      let (ps, ts) ← patterns ts
      let (script, ts) ← list fuel ts
      let ts := if atOperator ";;" ts then ts.tail else ts
      let (rest, ts) ← branches fuel ts
      return ((ps, script) :: rest, ts)

def command : (fuel : Nat) → Reader Script
  | 0, ts => refuse ts
  | fuel + 1, ts => do
    let whole (result : Script × List Placed) : Except Malformed (Script × List Placed) := do
      let (rs, rest) ← redirections (result.2.length + 1) result.2
      return (redirected result.1 rs, rest)
    match ts with
    | [] => refuse []
    | ⟨_, .arithmetic e⟩ :: rest => whole (.arithmetic e, rest)
    | ⟨_, .operator "("⟩ :: rest =>
      let (script, rest) ← body fuel rest
      let ((), rest) ← operator ")" rest
      whole (.subshell script, rest)
    | ⟨line, .operator o⟩ :: rest => refuse (⟨line, .operator o⟩ :: rest)
    | t :: rest =>
      match reserved? t.token with
      | some "if" => whole (← choice fuel rest)
      | some "while" =>
        let (condition, rest) ← body fuel rest
        let (script, rest) ← loopBody fuel rest
        whole (.loop true condition script, rest)
      | some "until" =>
        let (condition, rest) ← body fuel rest
        let (script, rest) ← loopBody fuel rest
        whole (.loop false condition script, rest)
      | some "for" =>
        match rest with
        | ⟨_, .word name⟩ :: rest =>
          let name := (name.bare?).getD []
          let (ws, rest) ←
            if atKeyword "in" rest then words rest.tail
            else pure ([[Part.variable ['@'] [] true]], rest)
          let rest := if atOperator ";" rest then rest.tail else rest
          let (script, rest) ← loopBody fuel rest
          whole (.each name ws script, rest)
        | rest => refuse rest
      | some "case" =>
        match rest with
        | ⟨_, .word subject⟩ :: rest =>
          let ((), rest) ← keyword "in" (skipLines rest)
          let (bs, rest) ← branches fuel rest
          whole (.matching subject bs, rest)
        | rest => refuse rest
      | some "\x7b" =>
        let (script, rest) ← body fuel rest
        let ((), rest) ← keyword "\x7d" rest
        whole (script, rest)
      | some name => if name = "in" then plain fuel t rest else refuse (t :: rest)
      | none => plain fuel t rest

def plain : (fuel : Nat) → Placed → Reader Script
  | 0, _, ts => refuse ts
  | fuel + 1, t, rest => do
    match t.token, rest with
    | .word name, ⟨_, .operator "("⟩ :: ⟨_, .operator ")"⟩ :: rest =>
      let (script, rest) ← command fuel (skipLines rest)
      return (.define (String.ofList (Lexer.delimiter name).1) script, rest)
    | _, _ =>
      let (s, rest) ← simple (rest.length + 2) {} (t :: rest)
      return (redirected (.command t.line s.assignments s.words) s.redirections, rest)

end

end Parser

def Script.parse (text : List Char) : Except Malformed Script := do
  let tokens ← Token.scan text
  let last := ((tokens.getLast?.map (·.line)).getD 1) + 1
  match Parser.list (8 * tokens.length + 16) tokens with
  | .ok (script, []) => return script
  | .ok (_, rest) => return (← Parser.refuse rest).1
  | .error (.ended _) => throw (.ended last)
  | .error e => throw e

end Rehearsal.Shell
