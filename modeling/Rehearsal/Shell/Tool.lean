import Rehearsal.Shell.Tool.Directory
import Rehearsal.Shell.Tool.Lines
import Rehearsal.Shell.Tool.State

/-! The commands that a script finds in every world, by name. -/

namespace Rehearsal.Shell.Tool

open Act

def find? (name : String) : Option (List String → Act Unit) :=
  match name with
  | "echo" => some fun arguments => do
    putBytes (Format.line arguments)
    setStatus 0
  | "printf" => some printf
  | "true" | ":" | "sleep" | "wait" | "umask" | "trap" | "shopt" | "sync" | "chmod" =>
    some fun _ => setStatus 0
  | "false" => some fun _ => setStatus 1
  | "exit" => some (exit "exit" .exit)
  | "return" => some (exit "return" .return)
  | "break" => some fun arguments => throw (.leave (loops arguments))
  | "continue" => some fun arguments => throw (.again (loops arguments))
  | "cd" => some cd
  | "pwd" => some fun _ => do
    put ((← get).directory ++ "\n")
    setStatus 0
  | "export" | "declare" | "local" | "readonly" | "typeset" => some assign
  | "unset" => some unset
  | "set" => some setOptions
  | "shift" => some fun arguments => do
    modify fun m => { m with arguments := m.arguments.drop (loops arguments) }
    setStatus 0
  | "read" => some read
  | "test" => some (test "test")
  | "[" => some bracket
  | "kill" => some kill
  | "cat" => some cat
  | "ls" => some ls
  | "touch" => some touch
  | "mkdir" => some mkdir
  | "rm" => some rm
  | "rmdir" => some rmdir
  | "cp" => some (copy "cp" false)
  | "mv" => some (copy "mv" true)
  | "seq" => some seq
  | "head" => some head
  | "tail" => some tail
  | "wc" => some wc
  | "tr" => some tr
  | "sort" => some sort
  | "uniq" => some uniq
  | "grep" => some grep
  | "tee" => some tee
  | "rev" => some rev
  | "basename" => some basename
  | "dirname" => some dirname
  | "printenv" => some printenv
  | _ => none

/-- The tools that are programs of their own, and not a part of the shell. -/
def programs : List String :=
  ["echo", "printf", "true", "false", "sleep", "sync", "chmod", "pwd", "test", "[", "kill", "cat",
    "ls", "touch", "mkdir", "rm", "rmdir", "cp", "mv", "seq", "head", "tail", "wc", "tr", "sort",
    "uniq", "grep", "tee", "rev", "basename", "dirname", "printenv"]

def isBuiltin (name : String) : Bool :=
  (find? name).isSome &&
    (!programs.contains name ||
      ["echo", "printf", "true", "false", "pwd", "test", "[", "kill"].contains name)

def findProgram? (path : String) : Option (List String → Act Unit) := do
  let name ← (Text.rest? "/usr/bin/" path).orElse fun _ => Text.rest? "/bin/" path
  if programs.contains name then find? name else none

/-- Tells what names stand for, in the way of one of the commands for that. -/
def locate (command : String) (names : List String) : Act Unit := do
  setStatus 0
  for name in names do
    let builtin := isBuiltin name && command ≠ "which"
    let path := "/usr/bin/" ++ name
    if builtin then
      put (name ++ (if command = "type" then " is a shell builtin" else "") ++ "\n")
    else if programs.contains name then
      put ((if command = "type" then name ++ " is " else "") ++ path ++ "\n")
    else
      if command = "type" then report ("type: " ++ name ++ ": not found")
      setStatus 1

end Rehearsal.Shell.Tool
