import Rehearsal.Command.Report
import Rehearsal.Command.Script
import Rehearsal.Shell.Run
import Rehearsal.Text.Blank
import Rehearsal.Value.Text

/-! Commands run in an empty directory, as scripts of a shell. -/

namespace Rehearsal.Command

def shells : List String :=
  ["bash", "sh", "/bin/bash", "/bin/sh", "/usr/bin/bash", "/usr/bin/sh", "dash"]

def missingProgram (name : String) : Shell.Finished :=
  { exit := 1, error := "[Errno 2] No such file or directory: " ++ Scalar.quotedText name }

def perform (shell command directory : String) (environment : Table String String)
    (files : Table String (List UInt8)) : Shell.Finished :=
  let text := script command directory none
  if shells.contains shell then Shell.execute text environment directory files
  else match shell with
    | "true" | "false" | "echo" =>
      Shell.execute (shell ++ " -c " ++ quoteWord text) environment directory files
    | _ => missingProgram shell

def outputPath : String := "/tmp/outputs"

/-- Runs a command of a step. The file for outputs is there and empty if the command is to have
one. -/
def rehearse (command directory : String) (environment : Table String String) : Report :=
  let hasFile := Table.has outputVariable environment
  let environment :=
    if hasFile then Table.put outputVariable outputPath environment else environment
  let files := if hasFile then [(outputPath, [])] else []
  let finished := perform "bash" command directory environment files
  { exit := finished.exit
    output := finished.output
    error := finished.error
    written := Table.find? outputPath finished.files }

/-- The version that a command of the tool manager tells, if it tells one. -/
def probe (command : String) : Option String :=
  let finished := Shell.execute command [] "/" []
  let version := Text.trimmed finished.output
  if finished.exit ≠ 0 ∨ version = "" then none else some version

end Rehearsal.Command
