import Rehearsal.Action.Mock
import Rehearsal.Path

/-! The files that a command line can name. A directory is there if something is in it, or if it is
listed itself. -/

namespace Rehearsal

structure Files where
  directory : String
  texts : Table String String := []
  mocks : Table String MockFile := []
  directories : List String := []

inductive Place where
  | text (content : String)
  | directory
  | nothing
  | tooLong
  deriving DecidableEq, Repr

namespace Files

def isDirectory (files : Files) (path : String) : Bool :=
  let start := Path.parts path.toList
  let below (p : String) : Bool := start.isPrefixOf (Path.parts p.toList)
  let belowFile (p : String) : Bool := start.isPrefixOf (Path.parts p.toList).dropLast
  (files.directory :: files.directories).any below || files.texts.any (belowFile ·.1) ||
    files.mocks.any (belowFile ·.1)

def maxPathSize : Nat := 4095

def maxNameSize : Nat := 255

def isNameable (path : String) : Bool :=
  path.utf8ByteSize ≤ maxPathSize &&
    (Path.parts path.toList).all fun part => (String.ofList part).utf8ByteSize ≤ maxNameSize

def look (files : Files) (path : String) : Place :=
  match Table.find? path files.texts with
  | some content => .text content
  | none =>
    if files.isDirectory path then .directory
    else if isNameable path then .nothing
    else .tooLong

def mocksIn (files : Files) (directory : String) : Table String MockFile :=
  (files.mocks.filter fun (path, _) => Path.parent path == directory).map fun (path, file) =>
    (Path.name path, file)

end Files
end Rehearsal
