import Rehearsal.Context
import Rehearsal.Text.Search

/-! A command of a step is run by a shell from the directory of the step. `script` is the text that
the shell is given; `quoteWord` makes any text one word of it. -/

namespace Rehearsal.Command

def isSafe (c : Char) : Bool := c.isAlphanum || "_@%+=:,./-".toList.contains c

/-- A text as one word of the shell, in single quotes unless it needs none. -/
def quoteWord (word : String) : String :=
  let cs := word.toList
  if !cs.isEmpty && cs.all isSafe then word
  else
    let inner := Text.replaceAll ['\''] ['\'', '"', '\'', '"', '\''] cs
    String.ofList ('\'' :: inner ++ ['\''])

/-- The script for a command in a directory. The tool manager is started first if it is present. -/
def script (command directory : String) (toolchain : Option String) : String :=
  let start := "cd " ++ quoteWord directory
  match toolchain with
  | some version =>
    if version = "" then start ++ " && " ++ command
    else start ++ " && eval \"$(mise activate bash)\" && " ++ command
  | none => start ++ " && " ++ command

def baseEnvironment : Table String String := [("CI", "true"), ("GITHUB_ACTIONS", "true")]

def outputVariable : String := "GITHUB_OUTPUT"

def outputFile : String := "<file>"

end Rehearsal.Command
