import Rehearsal.Shell.Machine

/-! The tools that list, make, copy, move and remove files and directories, or take paths apart. -/

namespace Rehearsal.Shell.Tool

open Act

def ls (arguments : List String) : Act Unit := do
  let (os, paths) := options arguments
  setStatus 0
  let m ← get
  let isShown (name : String) : Bool := hasOption 'a' os || hasOption 'A' os || name.front ≠ '.'
  let marked (directory name : String) : String :=
    if (hasOption 'p' os || hasOption 'F' os) && m.isDirectory (directory ++ "/" ++ name) then
      name ++ "/"
    else name
  let ends := if hasOption 'a' os then [".", ".."] else []
  let missing := paths.filter fun p => !m.hasPath p
  for path in missing do
    complain ("ls: cannot access '" ++ path ++ "': No such file or directory")
    setStatus 2
  let present := (paths.filter m.hasPath).mergeSort fun a b => a ≤ b
  let files := present.filter fun p => !m.isDirectory p || hasOption 'd' os
  let directories := present.filter fun p => m.isDirectory p && !hasOption 'd' os
  for path in files do
    put (path ++ "\n")
  let titled := paths.length > 1
  for (path, i) in (if paths.isEmpty then ["."] else directories).zipIdx do
    if titled then put ((if i > 0 || !files.isEmpty then "\n" else "") ++ path ++ ":\n")
    for name in ends ++ (m.namesIn path).filter isShown do
      put (marked path name ++ "\n")

def hasParent (m : Machine) (path : String) : Bool := m.isDirectory (Path.parent (m.resolve path))

def touch (arguments : List String) : Act Unit := do
  let (_, paths) := options arguments
  setStatus 0
  if paths.isEmpty then
    complain "touch: missing file operand\nTry 'touch --help' for more information."
    setStatus 1
  for path in paths do
    let m ← get
    if !hasParent m path then
      complain ("touch: cannot touch '" ++ path ++ "': No such file or directory")
      setStatus 1
    else if !m.hasPath path then
      set { m with files := Table.put (m.resolve path) [] m.files }

def mkdir (arguments : List String) : Act Unit := do
  let (os, paths) := options arguments
  setStatus 0
  if paths.isEmpty then
    complain "mkdir: missing operand\nTry 'mkdir --help' for more information."
    setStatus 1
  for path in paths do
    let m ← get
    let make : Act Unit := modify fun m => { m with directories := m.resolve path :: m.directories }
    if hasOption 'p' os then
      if (m.file? path).isSome then
        complain ("mkdir: cannot create directory '" ++ path ++ "': File exists")
        setStatus 1
      else make
    else if m.hasPath path then
      complain ("mkdir: cannot create directory '" ++ path ++ "': File exists")
      setStatus 1
    else if !hasParent m path then
      complain ("mkdir: cannot create directory '" ++ path ++ "': No such file or directory")
      setStatus 1
    else make

def isWithin (directory path : String) : Bool :=
  (Path.parts directory.toList).isPrefixOf (Path.parts path.toList)

def discard (path : String) (m : Machine) : Machine :=
  let p := m.resolve path
  { m with
    files := m.files.filter fun entry => !isWithin p entry.1
    directories :=
      (m.directories.filter fun d => !isWithin p d) ++
        -- What held the path stays, even if nothing else is in it.
        [Path.parent p] }

def rm (arguments : List String) : Act Unit := do
  let (os, paths) := options arguments
  setStatus 0
  if paths.isEmpty && !hasOption 'f' os then
    complain "rm: missing operand\nTry 'rm --help' for more information."
    setStatus 1
  for path in paths do
    let m ← get
    if !m.hasPath path then
      if !hasOption 'f' os then
        complain ("rm: cannot remove '" ++ path ++ "': No such file or directory")
        setStatus 1
    else if m.isDirectory path && !hasOption 'r' os && !hasOption 'R' os then
      complain ("rm: cannot remove '" ++ path ++ "': Is a directory")
      setStatus 1
    else set (discard path m)

def rmdir (arguments : List String) : Act Unit := do
  setStatus 0
  for path in (options arguments).2 do
    let m ← get
    let failure :=
      if !m.hasPath path then some "No such file or directory"
      else if !m.isDirectory path then some "Not a directory"
      else if !(m.namesIn path).isEmpty then some "Directory not empty"
      else none
    match failure with
    | some reason =>
      complain ("rmdir: failed to remove '" ++ path ++ "': " ++ reason)
      setStatus 1
    | none => set (discard path m)

def copy (tool : String) (move : Bool) (arguments : List String) : Act Unit := do
  match (options arguments).2 with
  | [source, target] =>
    let m ← get
    match m.file? source with
    | some bytes =>
      let target := if m.isDirectory target then target ++ "/" ++ Path.name source else target
      modify fun m => { m with files := Table.put (m.resolve target) bytes m.files }
      if move then modify (discard source)
      setStatus 0
    | none =>
      complain (tool ++ ": cannot stat '" ++ source ++ "': No such file or directory")
      setStatus 1
  | [] =>
    complain (tool ++ ": missing file operand\nTry '" ++ tool ++ " --help' for more information.")
    setStatus 1
  | source :: _ =>
    complain (tool ++ ": missing destination file operand after '" ++ source ++ "'\nTry '" ++
      tool ++ " --help' for more information.")
    setStatus 1

def basename (arguments : List String) : Act Unit := do
  match arguments with
  | path :: rest =>
    let name := if path.toList.all (· = '/') then path else Path.name path
    let ending := (rest.head?.getD "").toList
    let cs := name.toList
    let cut :=
      if ending.isSuffixOf cs ∧ ending ≠ cs then cs.take (cs.length - ending.length) else cs
    put (String.ofList cut ++ "\n")
    setStatus 0
  | [] =>
    complain "basename: missing operand\nTry 'basename --help' for more information."
    setStatus 1

def dirname (arguments : List String) : Act Unit := do
  match arguments with
  | path :: _ =>
    let isSlash (c : Char) : Bool := c == '/'
    let s := (path.toList.reverse.dropWhile isSlash).dropWhile (!isSlash ·)
    let s := (s.dropWhile isSlash).reverse
    let shown := if s.isEmpty then (if path.toList.head? = some '/' then ['/'] else ['.']) else s
    put (String.ofList shown ++ "\n")
    setStatus 0
  | [] =>
    complain "dirname: missing operand\nTry 'dirname --help' for more information."
    setStatus 1

end Rehearsal.Shell.Tool
