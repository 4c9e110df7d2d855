import Rehearsal.Shell.Format
import Rehearsal.Shell.Machine
import Rehearsal.Shell.Test
import Rehearsal.Text.Search

/-! The tools that read or change variables, arguments and options of the script itself. -/

namespace Rehearsal.Shell.Tool

open Act

def process : String := "4211"

def signal? (name : String) : Option Nat :=
  let name := name.toUpper
  let short := (Text.rest? "SIG" name).getD name
  match short with
  | "HUP" => some 1
  | "INT" => some 2
  | "QUIT" => some 3
  | "ILL" => some 4
  | "TRAP" => some 5
  | "ABRT" => some 6
  | "BUS" => some 7
  | "FPE" => some 8
  | "KILL" => some 9
  | "USR1" => some 10
  | "SEGV" => some 11
  | "USR2" => some 12
  | "PIPE" => some 13
  | "ALRM" => some 14
  | "TERM" => some 15
  | _ => short.toNat?

def send (signal : Nat) (target : String) : Act Unit := do
  if target ≠ process then
    report ("kill: (" ++ target ++ ") - No such process")
    setStatus 1
  else if signal = 0 then setStatus 0
  else throw (.killed signal)

def kill (arguments : List String) : Act Unit := do
  match arguments with
  | [] =>
    complain ("kill: usage: kill [-s sigspec | -n signum | -sigspec] pid | jobspec ... or kill " ++
      "-l [sigspec]")
    setStatus 2
  | "-s" :: name :: target :: _ | "-n" :: name :: target :: _ =>
    match signal? name with
    | some n => send n target
    | none =>
      report ("kill: " ++ name ++ ": invalid signal specification")
      setStatus 1
  | first :: rest =>
    match Text.rest? "-" first, rest with
    | some name, target :: _ =>
      match signal? name with
      | some n => send n target
      | none =>
        report ("kill: " ++ name ++ ": invalid signal specification")
        setStatus 1
    | _, _ => send 15 first

def cd (arguments : List String) : Act Unit := do
  let m ← get
  let home := (m.valueOf? "HOME").getD "/"
  let (target, shown) := match arguments.filter (· ≠ "--") with
    | [] => (home, false)
    | "-" :: _ => ((m.valueOf? "OLDPWD").getD m.directory, true)
    | path :: _ => (path, false)
  if m.isDirectory target || target.isEmpty then
    let full := m.resolve target
    set (({ m with directory := full }.set "OLDPWD" m.directory).set "PWD" full)
    if shown then put (full ++ "\n")
    setStatus 0
  else
    let reason := if (m.file? target).isSome then "Not a directory" else "No such file or directory"
    report ("cd: " ++ target ++ ": " ++ reason)
    setStatus 1

def exit (name : String) (ending : Ending) (arguments : List String) : Act Unit := do
  match arguments with
  | [] => throw ending
  | first :: rest =>
    match first.toInt? with
    | some i =>
      if rest.isEmpty then
        setStatus (i % 256).toNat
        throw ending
      else
        report (name ++ ": too many arguments")
        setStatus 1
    | none =>
      report (name ++ ": " ++ first ++ ": numeric argument required")
      setStatus 2
      throw ending

def setOptions : List String → Act Unit
  | [] => setStatus 0
  | "--" :: rest => do
    modify fun m => { m with arguments := rest }
    setStatus 0
  | "pipefail" :: rest => do
    modify fun m => { m with pipesFail := true }
    setOptions rest
  | "errexit" :: rest => do
    modify fun m => { m with stopsOnFailure := true }
    setOptions rest
  | "nounset" :: rest => do
    modify fun m => { m with needsVariables := true }
    setOptions rest
  | first :: rest => do
    let on := first.startsWith "-"
    if on || first.startsWith "+" then
      if first.toList.contains 'e' then modify fun m => { m with stopsOnFailure := on }
      if first.toList.contains 'u' then modify fun m => { m with needsVariables := on }
      setOptions rest
    else
      modify fun m => { m with arguments := first :: rest }
      setStatus 0

/-- Reads a line into variables; the last one takes what is left of it. -/
def read (arguments : List String) : Act Unit := do
  let (_, names) := options arguments
  match linesOf (← get).input with
  | [] =>
    for name in names do
      modify (Machine.set name "")
    setStatus 1
  | line :: rest =>
    modify fun m => { m with input := rest.flatten }
    let complete := line.getLast? = some 10
    let s := textOf (if complete then line.dropLast else line)
    let blank (c : Char) : Bool := c == ' ' || c == '\t'
    let trim (s : List Char) : List Char :=
      ((s.dropWhile blank).reverse.dropWhile blank).reverse
    let rec share : List String → List Char → Act Unit
      | [], _ => return
      | [name], s => modify (Machine.set name (String.ofList (trim s)))
      | name :: names, s => do
        let s := s.dropWhile blank
        modify (Machine.set name (String.ofList (s.takeWhile (!blank ·))))
        share names (s.dropWhile (!blank ·))
    if names.isEmpty then modify (Machine.set "REPLY" s) else share names s.toList
    succeed complete

def unset (arguments : List String) : Act Unit := do
  for name in (options arguments).2 do
    modify (Machine.unset name)
  setStatus 0

def assign (arguments : List String) : Act Unit := do
  for argument in (options arguments).2 do
    if let some (name, value) := Text.cutAt? '=' argument.toList then
      modify (Machine.set (String.ofList name) (String.ofList value))
  setStatus 0

def printf (arguments : List String) : Act Unit := do
  match (if arguments.head? = some "--" then arguments.tail else arguments) with
  | [] =>
    complain "printf: usage: printf [-v var] format [arguments]"
    setStatus 2
  | "-v" :: name :: format :: rest =>
    let (bytes, _) := Format.render format rest
    modify (Machine.set name (textOf bytes))
    setStatus 0
  | format :: rest =>
    let (bytes, complaints) := Format.render format rest
    for complaint in complaints do
      report ("printf: " ++ complaint)
    putBytes bytes
    succeed complaints.isEmpty

def test (name : String) (arguments : List String) : Act Unit := do
  match Test.holds (← get) (arguments.length + 1) arguments with
  | .ok b => succeed b
  | .error reason =>
    report (name ++ ": " ++ reason)
    setStatus 2

def bracket (arguments : List String) : Act Unit := do
  if arguments.getLast? = some "]" then test "[" arguments.dropLast
  else
    report "[: missing \x60]'"
    setStatus 2

def loops (arguments : List String) : Nat := ((arguments.head?.bind String.toNat?).getD 1).max 1

def printenv (arguments : List String) : Act Unit := do
  let m ← get
  match arguments with
  | [] =>
    for (name, value) in m.bindings do
      put (name ++ "=" ++ value ++ "\n")
    setStatus 0
  | names =>
    let values := names.filterMap m.valueOf?
    for value in values do
      put (value ++ "\n")
    succeed (values.length = names.length)

end Rehearsal.Shell.Tool
