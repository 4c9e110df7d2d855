import Rehearsal.Command.Perform
import Rehearsal.CommandLine.Dialogue
import Rehearsal.CommandLine.Perform

/-! Reads the file that the command line names, shows the events of the run as they come, and asks
the user what the run needs to know. -/

namespace Rehearsal.Program

open CommandLine

def readText (path : String) : IO (Option String) := do
  try
    return some (Text.ofBytes (← IO.FS.readBinFile path).toList)
  catch _ => return none

def filesFor (request : Request) : IO Files := do
  let files : Files := { directory := (← IO.getEnv "PWD").getD "/" }
  let named := match request with
    | .nothing => none
    | .run o => some o.workflow
    | .validate o => some o.workflow
  match named.map (Workflow.fullPath files.directory) with
  | none | some (.error _) => return files
  | some (.ok path) =>
    match ← readText path with
    | some content => return { files with texts := [(path, content)] }
    | none => return files

def showEvent (event : Event) : IO Unit := do
  match event with
  | .log level message => (← IO.getStderr).putStrLn (level.name ++ " - " ++ message)
  | .echo text => (← IO.getStdout).putStrLn text
  | .pause => IO.sleep 500
  | _ => return

def ask (question : Question) : IO String := do
  let output ← IO.getStdout
  let hint := if question.default = "" then "" else " [" ++ question.default ++ "]"
  output.putStr (question.text ++ hint ++ ": ")
  output.flush
  let line ← (← IO.getStdin).getLine
  return String.ofList (line.toList.filter fun c => c ≠ '\n' && c ≠ '\r')

/-- Plays a request until nothing more is needed; `shown` events have been shown before. -/
partial def play (request : Request) (files : Files) (transcript : Transcript) (shown : Nat) :
    IO UInt32 := do
  let (result, s) := (request.perform files).perform transcript.session
  let (events, need) := transcript.settle s.trace
  for event in events.drop shown do
    showEvent event
  match need with
  | some (.answer question) =>
    let typed ← ask question
    play request files (transcript.answer question.text typed) events.length
  | some (.report command directory environment) =>
    let report := Command.rehearse command directory environment
    play request files (transcript.report report) events.length
  | none =>
    match result with
    | .ok code => return code.toUInt32
    | .error (.escaped (.exit code)) => return UInt32.ofInt code
    | .error (.escaped .interrupt) => return 130
    | .error fault =>
      (← IO.getStderr).putStrLn fault.message
      return 1

end Rehearsal.Program

def main (arguments : List String) : IO UInt32 := do
  match Rehearsal.CommandLine.request arguments with
  | .error refusal => return refusal.exitCode.toUInt32
  | .ok request =>
    Rehearsal.Program.play request (← Rehearsal.Program.filesFor request) {} 0
