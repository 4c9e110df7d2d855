import Rehearsal.Path
import Rehearsal.Shell.Script
import Rehearsal.Table
import Rehearsal.Text.Bytes

/-! A script works on variables and on files in directories, all of which are values here. What it
writes is kept as a list of writes, each to a stream. Tools take options, and read files or the
input. -/

namespace Rehearsal.Shell

inductive Sink where
  | output
  | error
  | pipe (number : Nat)
  | file (path : String)
  | nowhere
  deriving DecidableEq, Repr

structure Machine where
  bindings : Table String String := []
  /-- The arguments of the script or of the function that runs. -/
  arguments : List String := []
  functions : Table String Script := []
  directory : String := "/"
  directories : List String := []
  files : Table String (List UInt8) := []
  input : List UInt8 := []
  out : Sink := .output
  err : Sink := .error
  /-- What has been written and not been taken by a pipe, the latest first. -/
  writes : List (Sink × List UInt8) := []
  pipes : Nat := 0
  status : Nat := 0
  line : Nat := 1
  stopsOnFailure : Bool := false
  needsVariables : Bool := false
  pipesFail : Bool := false
  /-- Whether the success of the current command is asked for by another one. -/
  tested : Bool := false

inductive Ending where
  | exit
  | killed (signal : Nat)
  | leave (loops : Nat)
  | again (loops : Nat)
  | return
  deriving DecidableEq, Repr

abbrev Act (α : Type) := ExceptT Ending (StateM Machine) α

namespace Machine

def valueOf? (m : Machine) (name : String) : Option String := Table.find? name m.bindings

def set (name value : String) (m : Machine) : Machine :=
  { m with bindings := Table.put name value m.bindings }

def unset (name : String) (m : Machine) : Machine :=
  { m with bindings := m.bindings.filter (·.1 ≠ name) }

def resolve (m : Machine) (path : String) : String := Path.absolute m.directory path

def isDirectory (m : Machine) (path : String) : Bool :=
  let p := m.resolve path
  p == "/" || p == "/tmp" || m.directories.contains p ||
    m.directories.any fun d => (Path.parts p.toList).isPrefixOf (Path.parts d.toList)

def file? (m : Machine) (path : String) : Option (List UInt8) :=
  let p := m.resolve path
  if p == "/dev/null" then some [] else Table.find? p m.files

def hasPath (m : Machine) (path : String) : Bool := m.isDirectory path || (m.file? path).isSome

def namesIn (m : Machine) (path : String) : List String :=
  let p := m.resolve path
  let below := (m.files.map (·.1) ++ m.directories).filter fun q => q ≠ p && Path.parent q == p
  ((below.map Path.name).eraseDups).mergeSort fun a b => a ≤ b

end Machine

namespace Act

def writeTo (sink : Sink) (bytes : List UInt8) : Act Unit :=
  modify fun m =>
    match sink with
    | .nowhere => m
    | .file path =>
      let before := (Table.find? path m.files).getD []
      { m with files := Table.put path (before ++ bytes) m.files }
    | sink => { m with writes := (sink, bytes) :: m.writes }

def bytesOf (s : String) : List UInt8 := s.toUTF8.toList

def put (s : String) : Act Unit := do writeTo (← get).out (bytesOf s)

def putBytes (bytes : List UInt8) : Act Unit := do writeTo (← get).out bytes

def complain (s : String) : Act Unit := do writeTo (← get).err (bytesOf (s ++ "\n"))

def report (s : String) : Act Unit := do
  complain ("bash: line " ++ toString (← get).line ++ ": " ++ s)

def setStatus (status : Nat) : Act Unit := modify fun m => { m with status }

def succeed (yes : Bool) : Act Unit := setStatus (if yes then 0 else 1)

def exit {α : Type} (status : Nat) : Act α := do
  setStatus status
  throw .exit

def readAll : Act (List UInt8) := do
  let bytes := (← get).input
  modify fun m => { m with input := [] }
  return bytes

end Act

/-- The lines of bytes, each with its line feed; the last one may have none. -/
def linesOf : List UInt8 → List (List UInt8)
  | [] => []
  | b :: rest =>
    if b = 10 then [10] :: linesOf rest
    else match linesOf rest with
      | [] => [[b]]
      | line :: lines => (b :: line) :: lines

namespace Tool

open Act

/-- The bytes of a file that a tool reads; a hyphen stands for the input. -/
def content (tool path : String) : Act (Option (List UInt8)) := do
  if path = "-" then return some (← readAll)
  let m ← get
  match m.file? path with
  | some bytes => return some bytes
  | none =>
    let reason := if m.isDirectory path then "Is a directory" else "No such file or directory"
    complain (tool ++ ": " ++ path ++ ": " ++ reason)
    setStatus 1
    return none

/-- The bytes of files one after the other, or of the input if there are none. -/
def contents (tool : String) (paths : List String) : Act (List UInt8) := do
  setStatus 0
  if paths.isEmpty then return ← readAll
  let mut all : List UInt8 := []
  for path in paths do
    if let some bytes := ← content tool path then all := all ++ bytes
  return all

def options (arguments : List String) : List String × List String :=
  arguments.partition fun a => a.startsWith "-" && a ≠ "-"

def hasOption (letter : Char) (options : List String) : Bool :=
  options.any fun o => !o.startsWith "--" && o.toList.contains letter

def textOf (bytes : List UInt8) : String := String.ofList (Text.decode bytes)

end Tool
end Rehearsal.Shell
