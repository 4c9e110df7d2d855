import Rehearsal.Text.Search

/-! Paths as texts, without a file system: joining, and removing what a path does not need. -/

namespace Rehearsal.Path

open Rehearsal.Text

/-- The nonempty parts of a path between slashes, without those that mean the same directory. -/
def parts (path : List Char) : List (List Char) :=
  (splitOn '/' path).filter fun part => part ≠ [] ∧ part ≠ ['.']

/-- The slashes that a path starts with, as far as they count: two are kept, and more are one. -/
def root : List Char → List Char
  | '/' :: '/' :: '/' :: _ => ['/']
  | '/' :: '/' :: _ => ['/', '/']
  | '/' :: _ => ['/']
  | _ => []

/-- Puts parts behind a root; a path without parts and root is the directory itself. -/
def ofParts (root : List Char) (parts : List (List Char)) : String :=
  let path := root ++ join ['/'] parts
  String.ofList (if path.isEmpty then ['.'] else path)

/-- Follows a part from a list of parts in reverse. A step up undoes a part before it, and at the
root it is left out. -/
def follow (absolute : Bool) (done : List (List Char)) (part : List Char) : List (List Char) :=
  if part = ['.', '.'] then
    match done with
    | [] => if absolute then [] else [part]
    | last :: rest => if last = ['.', '.'] then part :: done else rest
  else part :: done

def resolvedParts (absolute : Bool) (path : List Char) : List (List Char) :=
  ((parts path).foldl (follow absolute) []).reverse

/-- A path without repeated slashes, steps that stay and steps up that can be undone. -/
def normalize (path : String) : String :=
  let s := path.toList
  ofParts (root s) (resolvedParts (root s ≠ []) s)

/-- A path without repeated slashes and steps that stay; steps up are kept. -/
def tidy (path : String) : String :=
  let s := path.toList
  ofParts (root s) (parts s)

def under (directory path : String) : String :=
  let d := directory.toList
  let p := path.toList
  if p.head? = some '/' ∨ d = [] then path
  else String.ofList (if d.getLast? = some '/' then d ++ p else d ++ '/' :: p)

/-- The full path, seen from a directory, with a single slash at its start. -/
def absolute (directory path : String) : String :=
  ofParts ['/'] (resolvedParts true (under directory path).toList)

def parent (path : String) : String := ofParts ['/'] (parts path.toList).dropLast

def name (path : String) : String := String.ofList ((parts path.toList).getLast?.getD [])

/-- A name without its last ending. A dot at either end of the name starts no ending. -/
def stem (path : String) : String :=
  let cs := (name path).toList
  let before := (cs.reverse.dropWhile (· ≠ '.')).tail.reverse
  if before.isEmpty ∨ cs.getLast? = some '.' then String.ofList cs else String.ofList before

end Rehearsal.Path
