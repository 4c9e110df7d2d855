import Rehearsal.Shell.Arithmetic
import Rehearsal.Shell.Expansion
import Rehearsal.Shell.Parser
import Rehearsal.Shell.Tool

/-! Scripts run in a world that is a value. The fuel bounds how deep commands may be nested and how
often a loop may be repeated. -/

namespace Rehearsal.Shell

open Act

def Malformed.message (script : List Char) : Malformed → String
  | unclosed c => "bash: -c: line 1: unexpected EOF while looking for matching \x60" ++
      String.singleton c ++ "'"
  | ended line => "bash: -c: line " ++ toString line ++ ": syntax error: unexpected end of file"
  | unexpected line token =>
    let source := String.ofList (((Text.splitOn '\n' script)[line - 1]?).getD [])
    let start := "bash: -c: line " ++ toString line ++ ": "
    start ++ "syntax error near unexpected token \x60" ++ token ++ "'\n" ++ start ++ "\x60" ++
      source ++ "'"

namespace Run

def take (number : Nat) : Act (List UInt8) := do
  let m ← get
  let (mine, others) := m.writes.partition fun w => w.1 = .pipe number
  set { m with writes := others }
  return mine.reverse.flatMap (·.2)

def openPipe : Act Nat := do
  let m ← get
  set { m with pipes := m.pipes + 1 }
  return m.pipes

/-- Runs a part of a script in a world of its own: what it changes but files is forgotten, and
what ends it does not end the whole. -/
def apart (body : Act Unit) : Act Unit := do
  let before ← get
  tryCatch body fun ending =>
    match ending with
    | .killed signal => throw (.killed signal)
    | _ => return
  modify fun m =>
    { before with
      directories := m.directories, files := m.files, input := m.input, writes := m.writes
      pipes := m.pipes, status := m.status }

def withStreams (change : Machine → Machine) (body : Act Unit) : Act Unit := do
  let before ← get
  set (change before)
  let ending ← tryCatch (do body; return none) fun ending => return some ending
  modify fun m =>
    { m with out := before.out, err := before.err
             input := if (change before).input == before.input then m.input else before.input }
  if let some ending := ending then throw ending

def asking (body : Act Unit) : Act Bool := do
  let before := (← get).tested
  modify fun m => { m with tested := true }
  body
  modify fun m => { m with tested := before }
  return (← get).status = 0

def checkFailure : Act Unit := do
  let m ← get
  if m.status ≠ 0 && m.stopsOnFailure && !m.tested then throw .exit

def sinkFor (path : String) (append : Bool) : Act (Option Sink) := do
  let m ← get
  let full := m.resolve path
  if full = "/dev/null" then return some .nowhere
  else if full = "/dev/stdout" then return some m.out
  else if full = "/dev/stderr" then return some m.err
  else if path.isEmpty || !Tool.hasParent m path then
    report (path ++ ": No such file or directory")
    return none
  else if m.isDirectory path then
    report (path ++ ": Is a directory")
    return none
  else
    unless append && (m.file? path).isSome do
      set { m with files := Table.put full [] m.files }
    return some (.file full)

def direct (descriptor : Nat) (sink : Sink) (m : Machine) : Machine :=
  match descriptor with
  | 1 => { m with out := sink }
  | 2 => { m with err := sink }
  | _ => m

/-- The words of a test between double brackets hold. Patterns stand on the right of an equality. -/
def bracketsHold (m : Machine) : (fuel : Nat) → List (List Glyph) → Bool
  | 0, _ => false
  | fuel + 1, words =>
    let text (w : List Glyph) : String := String.ofList (w.map (·.char))
    match words.findIdx? fun w => text w = "||" with
    | some i => bracketsHold m fuel (words.take i) || bracketsHold m fuel (words.drop (i + 1))
    | none =>
      match words.findIdx? fun w => text w = "&&" with
      | some i => bracketsHold m fuel (words.take i) && bracketsHold m fuel (words.drop (i + 1))
      | none =>
        match words with
        | [] => false
        | [w] => !w.isEmpty
        | w :: rest =>
          if text w = "!" then !bracketsHold m fuel rest
          else match rest with
            | [operand] => (Test.unary? m (text w) (text operand)).getD false
            | [operator, right] =>
              match text operator with
              | "=" | "==" => Pattern.matches? right (w.map (·.char))
              | "!=" => !Pattern.matches? right (w.map (·.char))
              | "=~" => Text.occurs (right.map (·.char)) (w.map (·.char))
              | o => ((Test.binary? o (text w) (text right)).bind Except.toOption).getD false
            | _ => false

mutual

def expandPart : (fuel : Nat) → Part → Act (List Atom)
  | 0, _ => return []
  | fuel + 1, part => do
    match part with
    | .char c quoted => return [.glyph ⟨c, quoted⟩ false]
    | .quotes => return [.mark]
    | .output script quoted =>
      let number ← openPipe
      apart do
        modify fun m => { m with out := .pipe number, tested := false }
        evaluate fuel script
      let bytes := (← take number).filter (· ≠ 0)
      let bytes := (bytes.reverse.dropWhile (· = 10)).reverse
      return Atom.ofText quoted (Text.decode bytes)
    | .arithmetic expression quoted =>
      let i ← calculate fuel expression
      return Atom.ofText quoted (toString i).toList
    | .variable name modifier quoted =>
      let m ← get
      if (name = ['@'] ∨ (name = ['*'] ∧ !quoted)) ∧ modifier = [] then
        return (m.arguments.map fun a =>
          (if quoted then [Atom.mark] else []) ++ Atom.ofText quoted a.toList).intersperse [.cut]
            |>.flatten
      else
        let value := Expansion.value? m name
        if modifier = [] then
          if value.isNone && m.needsVariables then
            report (String.ofList name ++ ": unbound variable")
            exit 127
          return Atom.ofText quoted (value.getD "").toList
        else modified fuel name modifier quoted value

/-- The value of an arithmetic expression, in which words are expanded first. -/
def calculate : (fuel : Nat) → List Char → Act Int
  | 0, _ => return 0
  | fuel + 1, expression => do
    let word := (Lexer.all .document expression).toOption.getD (Word.literal expression)
    let text := Atom.text (← expandParts fuel word)
    let m ← get
    match Arithmetic.value? (Expansion.number m) text with
    | some i => return i
    | none =>
      report (String.ofList (Arithmetic.skipBlanks text) ++ ": arithmetic syntax error")
      exit 1

def modified : (fuel : Nat) → List Char → List Char → Bool → Option String → Act (List Atom)
  | 0, _, _, _, _ => return []
  | fuel + 1, name, modifier, quoted, value => do
    let operand (s : List Char) : Act (List Atom) := do
      let w := (Lexer.all .operand s).toOption.getD (Word.literal s)
      let atoms ← expandParts fuel w
      return atoms.map fun
        | .glyph g splits => .glyph ⟨g.char, g.quoted || quoted⟩ (!quoted && (splits || !g.quoted))
        | atom => atom
    let pattern (s : List Char) : Act (List Glyph) := do
      let w := (Lexer.all .operand s).toOption.getD (Word.literal s)
      return Atom.glyphs (← expandParts fuel w)
    let plain (s : List Char) : Act (List Atom) := return Atom.ofText quoted s
    let current := value.getD ""
    let (colon, rest) := match modifier with
      | ':' :: c :: s => if "-=+?".toList.contains c then (true, c :: s) else (false, modifier)
      | s => (false, s)
    let given := value.isSome && !(colon && current.isEmpty)
    match rest with
    | ['#'] =>
      let m ← get
      plain (toString (if name = ['@'] then m.arguments.length else current.length)).toList
    | '-' :: s => if given then plain current.toList else operand s
    | '+' :: s => if given then operand s else return []
    | '=' :: s =>
      if given then plain current.toList
      else
        let atoms ← operand s
        modify (Machine.set (String.ofList name) (String.ofList (Atom.text atoms)))
        return atoms
    | '?' :: s =>
      if given then plain current.toList
      else
        let message := String.ofList (Atom.text (← operand s))
        let usual := if colon then "parameter null or not set" else "parameter not set"
        report (String.ofList name ++ ": " ++ if message.isEmpty then usual else message)
        exit 127
    | '#' :: '#' :: s => plain (Pattern.dropStart true (← pattern s) current.toList)
    | '#' :: s => plain (Pattern.dropStart false (← pattern s) current.toList)
    | '%' :: '%' :: s => plain (Pattern.dropEnd true (← pattern s) current.toList)
    | '%' :: s => plain (Pattern.dropEnd false (← pattern s) current.toList)
    | '^' :: '^' :: _ => plain (Expansion.changeCase Char.toUpper true current.toList)
    | '^' :: _ => plain (Expansion.changeCase Char.toUpper false current.toList)
    | ',' :: ',' :: _ => plain (Expansion.changeCase Char.toLower true current.toList)
    | ',' :: _ => plain (Expansion.changeCase Char.toLower false current.toList)
    | '/' :: s =>
      let (everywhere, s) := match s with
        | '/' :: s => (true, s)
        | s => (false, s)
      let (replaced, replacing) := (Text.cutAt? '/' s).getD (s, [])
      let replacement := Atom.text (← operand replacing)
      plain (Expansion.replace everywhere (← pattern replaced) replacement
        (current.length + 1) current.toList)
    | ':' :: s =>
      let (start, length) := match Text.cutAt? ':' s with
        | some (a, b) => (a, some b)
        | none => (s, none)
      let size := current.length
      let i ← calculate fuel start
      let i := if i < 0 then (size + i).toNat else i.toNat
      let left := current.toList.drop i
      match length with
      | none => plain left
      | some length =>
        let n ← calculate fuel length
        plain (if n < 0 then left.take (left.length - n.natAbs) else left.take n.toNat)
    | _ =>
      report ("$\x7b" ++ String.ofList (name ++ modifier) ++ "\x7d: bad substitution")
      exit 1

def expandParts : (fuel : Nat) → Word → Act (List Atom)
  | 0, _ => return []
  | _ + 1, [] => return []
  | fuel + 1, part :: rest => do
    let atoms ← expandPart fuel part
    return atoms ++ (← expandParts fuel rest)

def expandText : (fuel : Nat) → Word → Act String
  | 0, _ => return ""
  | fuel + 1, w => do
    return String.ofList (Atom.text (← expandParts fuel (Expansion.tilde (← get) w)))

def expandWords : (fuel : Nat) → List Word → Act (List String)
  | 0, _ => return []
  | _ + 1, [] => return []
  | fuel + 1, w :: rest => do
    let mut arguments : List String := []
    let separators := (((← get).valueOf? "IFS").getD " \t\n").toList
    for w in Expansion.braces (w.length + 1) w do
      let w := if w = [.quotes, .variable ['@'] [] true] then w.tail else w
      let atoms ← expandParts fuel (Expansion.tilde (← get) w)
      let m ← get
      arguments := arguments ++
        (Atom.fields separators none atoms).flatMap (Expansion.complete m)
    return arguments ++ (← expandWords fuel rest)

/-- The machine with streams as redirections want them; none if one cannot be followed. -/
def redirected : (fuel : Nat) → List Redirection → Machine → Act (Option Machine)
  | 0, _, _ => return none
  | _ + 1, [], streams => return some streams
  | fuel + 1, r :: rest, streams => do
    let follow (change : Machine → Machine) : Act (Option Machine) :=
      redirected fuel rest (change streams)
    let write (descriptor : Nat) (file : Word) (append : Bool) : Act (Option Machine) := do
      match ← sinkFor (← expandText fuel file) append with
      | some sink => follow (direct descriptor sink)
      | none => return none
    let both (file : Word) : Act (Option Machine) := do
      match ← sinkFor (← expandText fuel file) false with
      | some sink => follow fun m => { m with out := sink, err := sink }
      | none => return none
    match r with
    | .write descriptor file => write descriptor file false
    | .append descriptor file => write descriptor file true
    | .writeBoth file => both file
    | .read file =>
      let path ← expandText fuel file
      let m ← get
      match m.file? path with
      | some bytes => follow fun m => { m with input := bytes }
      | none =>
        report (path ++ ": " ++
          if m.isDirectory path then "Is a directory" else "No such file or directory")
        return none
    | .given text =>
      let text ← expandText fuel text
      follow fun m => { m with input := bytesOf text }
    | .same descriptor other =>
      match ← expandText fuel other with
      | "1" => follow (direct descriptor streams.out)
      | "2" => follow (direct descriptor streams.err)
      | "-" => follow (direct descriptor .nowhere)
      | "0" => follow id
      | _ => both other

def call : (fuel : Nat) → List String → Act Unit
  | 0, _ => exit 1
  | _ + 1, [] => return
  | fuel + 1, name :: arguments => do
    let m ← get
    match Table.find? name m.functions with
    | some body =>
      modify fun m => { m with arguments }
      tryCatch (run fuel body) fun ending => do
        if ending ≠ .return then throw ending
      modify fun s => { s with arguments := m.arguments }
    | none =>
      match name with
      | "eval" => evaluate fuel (" ".intercalate arguments).toList
      | "exec" =>
        call fuel arguments
        unless arguments.isEmpty do throw .exit
      | "command" | "type" | "which" =>
        match name, arguments with
        | "command", "-v" :: names => Tool.locate name names
        | "command", words => call fuel words
        | _, names => Tool.locate name names
      | "builtin" | "nohup" | "time" => call fuel arguments
      | "env" =>
        let isAssignment (a : String) : Bool := a.toList.contains '='
        for a in arguments.takeWhile isAssignment do
          Tool.assign [a]
        match arguments.dropWhile isAssignment with
        | [] => Tool.printenv []
        | words => call fuel words
      | "bash" | "sh" | "dash" =>
        match arguments with
        | "-c" :: script :: rest =>
          tryCatch (apart do
            modify fun m => { m with arguments := rest.tail, functions := [] }
            evaluate fuel script.toList) fun ending =>
              match ending with
              | .killed signal => setStatus (128 + signal)
              | _ => return
        | _ => setStatus 0
      | "source" | "." =>
        let path := arguments.head?.getD ""
        match m.file? path with
        | some bytes =>
          tryCatch (evaluate fuel (Text.decode bytes)) fun ending => do
            if ending ≠ .return then throw ending
        | none =>
          report (path ++ ": No such file or directory")
          setStatus 1
      | _ =>
        match (Tool.find? name).orElse fun _ => Tool.findProgram? name with
        | some tool => tool arguments
        | none =>
          if !name.toList.contains '/' then
            report (name ++ ": command not found")
            setStatus 127
          else if m.isDirectory name then
            report (name ++ ": Is a directory")
            setStatus 126
          else if (m.file? name).isSome then
            report (name ++ ": Permission denied")
            setStatus 126
          else
            report (name ++ ": No such file or directory")
            setStatus 127

def assign : (fuel : Nat) → List (List Char × Word) → Act Unit
  | 0, _ => return
  | _ + 1, [] => return
  | fuel + 1, (name, value) :: rest => do
    let value ← expandText fuel value
    modify (Machine.set (String.ofList name) value)
    assign fuel rest

def match' : (fuel : Nat) → List Char → List (List Word × Script) → Act Unit
  | 0, _, _ => return
  | _ + 1, _, [] => setStatus 0
  | fuel + 1, subject, (patterns, body) :: rest => do
    let mut found := false
    for p in patterns do
      let pattern := Atom.glyphs (← expandParts fuel p)
      found := found || Pattern.matches? pattern subject
    if found then
      setStatus 0
      run fuel body
    else match' fuel subject rest

def pass : (fuel : Nat) → Script → Act Bool
  | 0, _ => exit 1
  | fuel + 1, body =>
    tryCatch (do
      run fuel body
      return true) fun ending =>
        match ending with
        | .leave n => if n ≤ 1 then return false else throw (.leave (n - 1))
        | .again n => if n ≤ 1 then return true else throw (.again (n - 1))
        | ending => throw ending

def repeat' : (fuel : Nat) → Bool → Script → Script → Act Unit
  | 0, _, _, _ => exit 1
  | fuel + 1, succeeds, condition, body => do
    if (← asking (run fuel condition)) == succeeds then
      if ← pass fuel body then repeat' fuel succeeds condition body
    else setStatus 0

def forEach : (fuel : Nat) → String → List String → Script → Act Unit
  | 0, _, _, _ => exit 1
  | _ + 1, _, [], _ => return
  | fuel + 1, name, word :: rest, body => do
    modify (Machine.set name word)
    if ← pass fuel body then forEach fuel name rest body

def evaluate : (fuel : Nat) → List Char → Act Unit
  | 0, _ => exit 1
  | fuel + 1, text =>
    match Script.parse text with
    | .ok script => do
      setStatus 0
      run fuel script
    | .error e => do
      complain (e.message text)
      setStatus 2

def run : (fuel : Nat) → Script → Act Unit
  | 0, _ => exit 1
  | fuel + 1, script => do
    match script with
    | .skip => return
    | .command line assignments words =>
      modify fun m => { m with line }
      match words with
      | [.char '[' false, .char '[' false] :: rest =>
        let mut glyphs : List (List Glyph) := []
        for w in rest.dropLast do
          glyphs := glyphs ++ [Atom.glyphs (← expandParts fuel w)]
        succeed (bracketsHold (← get) (glyphs.length + 1) glyphs)
      | words =>
        let arguments ← expandWords fuel words
        if arguments.isEmpty then
          if assignments.isEmpty then setStatus 0
          else
            setStatus 0
            assign fuel assignments
        else
          let saved := (← get).bindings
          assign fuel assignments
          call fuel arguments
          for (name, _) in assignments do
            let name := String.ofList name
            match Table.find? name saved with
            | some value => modify (Machine.set name value)
            | none => modify (Machine.unset name)
      checkFailure
    | .redirect body redirections =>
      match ← redirected fuel redirections (← get) with
      | some streams =>
        withStreams (fun m => { m with out := streams.out, err := streams.err
                                       input := streams.input }) (run fuel body)
      | none =>
        setStatus 1
        checkFailure
    | .subshell body =>
      apart (run fuel body)
      checkFailure
    | .pipe left right =>
      let number ← openPipe
      apart do
        modify fun m => { m with out := .pipe number, tested := true }
        run fuel left
      let bytes ← take number
      let first := (← get).status
      withStreams (fun m => { m with input := bytes }) (apart (run fuel right))
      let m ← get
      if m.pipesFail && m.status = 0 then setStatus first
      checkFailure
    | .not body =>
      let succeeded ← asking (run fuel body)
      succeed !succeeded
    | .and left right => if ← asking (run fuel left) then run fuel right
    | .or left right => if !(← asking (run fuel left)) then run fuel right
    | .seq left right =>
      run fuel left
      run fuel right
    | .choice condition yes no =>
      if ← asking (run fuel condition) then run fuel yes
      else
        setStatus 0
        run fuel no
    | .loop succeeds condition body => repeat' fuel succeeds condition body
    | .each name words body =>
      let arguments ← expandWords fuel words
      setStatus 0
      forEach fuel (String.ofList name) arguments body
    | .arithmetic expression =>
      let i ← calculate fuel expression
      succeed (i ≠ 0)
      checkFailure
    | .matching subject branches =>
      let subject ← expandText fuel subject
      match' fuel subject.toList branches
    | .define name body =>
      modify fun m => { m with functions := Table.put name body m.functions }
      setStatus 0

end

/-- How deep the commands of a script may be nested and how often a loop may be repeated. -/
def depth : Nat := 20000

end Run

structure Finished where
  /-- The status, or the number of the signal that ended the script below zero. -/
  exit : Int
  output : String := ""
  error : String := ""
  files : Table String (List UInt8) := []
  deriving Repr

/-- Runs a script in a world with some files, in a directory that is empty otherwise. -/
def execute (script : String) (environment : Table String String) (directory : String)
    (files : Table String (List UInt8)) : Finished :=
  let start : Machine :=
    { bindings := Table.putAll environment [("HOME", "/root"), ("PWD", directory)]
      directory
      directories := [directory]
      files }
  let (result, m) := StateT.run (ExceptT.run (Run.evaluate Run.depth script.toList)) start
  let written (sink : Sink) : String :=
    Text.ofBytes ((m.writes.filter (·.1 = sink)).reverse.flatMap (·.2))
  { exit := match result with
      | .error (.killed signal) => -signal
      | _ => m.status
    output := written .output
    error := written .error
    files := m.files }

end Rehearsal.Shell
