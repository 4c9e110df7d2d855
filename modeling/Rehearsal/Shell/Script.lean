/-! A script is a tree of commands. The words of a command are kept in parts, which are put together
only when the command runs. Scripts inside words are kept as texts. -/

namespace Rehearsal.Shell

/-- A part of a word. Quoted parts are taken literally and are not split. -/
inductive Part where
  | char (c : Char) (quoted : Bool)
  | quotes
  | variable (name modifier : List Char) (quoted : Bool)
  | output (script : List Char) (quoted : Bool)
  | arithmetic (expression : List Char) (quoted : Bool)
  deriving DecidableEq, Repr

abbrev Word := List Part

namespace Word

def bare? : Word → Option (List Char)
  | [] => some []
  | .char c false :: rest => (bare? rest).map (c :: ·)
  | _ => none

def literal (cs : List Char) : Word := cs.map fun c => .char c true

end Word

/-- Where a stream of a command comes from or goes to. -/
inductive Redirection where
  | write (descriptor : Nat) (file : Word)
  | append (descriptor : Nat) (file : Word)
  | read (file : Word)
  | same (descriptor : Nat) (other : Word)
  | writeBoth (file : Word)
  | given (text : Word)
  deriving DecidableEq, Repr

inductive Script where
  | skip
  /-- A command on a line, with assignments before its words. -/
  | command (line : Nat) (assignments : List (List Char × Word)) (words : List Word)
  | redirect (body : Script) (redirections : List Redirection)
  | subshell (body : Script)
  | pipe (left right : Script)
  | not (body : Script)
  | and (left right : Script)
  | or (left right : Script)
  | seq (left right : Script)
  | choice (condition yes no : Script)
  /-- Repeats the body as long as the condition succeeds, or fails. -/
  | loop (succeeds : Bool) (condition body : Script)
  | each (name : List Char) (words : List Word) (body : Script)
  | arithmetic (expression : List Char)
  | matching (subject : Word) (branches : List (List Word × Script))
  | define (name : String) (body : Script)
  deriving Repr

end Rehearsal.Shell
