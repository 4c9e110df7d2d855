import Rehearsal.Number.Reading
import Rehearsal.Shell.Machine
import Rehearsal.Text.Search

/-! The tools that read lines of text and give back some of them, sorted, counted or edited. -/

namespace Rehearsal.Shell.Tool

open Act

def cat (arguments : List String) : Act Unit := do
  let (os, paths) := options arguments
  setStatus 0
  for path in if paths.isEmpty then ["-"] else paths do
    if let some bytes := ← content "cat" path then
      if hasOption 'n' os then
        for (line, i) in (linesOf bytes).zipIdx do
          let number := toString (i + 1)
          put (String.ofList (List.replicate (6 - number.length) ' ') ++ number ++ "\t")
          putBytes line
      else putBytes bytes

def numbers (step last : Int) : (most : Nat) → Int → List Int
  | 0, _ => []
  | most + 1, i =>
    if (0 < step ∧ last < i) ∨ (step < 0 ∧ i < last) ∨ step = 0 then []
    else i :: numbers step last most (i + step)

def seq (arguments : List String) : Act Unit := do
  let write (first step last : Int) : Act Unit := do
    for i in numbers step last ((last - first).natAbs + 1) first do
      put (toString i ++ "\n")
    setStatus 0
  match arguments.map String.toInt? with
  | [some last] => write 1 1 last
  | [some first, some last] => write first 1 last
  | [some first, some step, some last] => write first step last
  | _ =>
    complain "seq: missing operand\nTry 'seq --help' for more information."
    setStatus 1

/-- The count that head or tail is given, the files, and whether bytes are counted. -/
def count (tool : String) : List String → String × Bool × List String
  | "-n" :: n :: rest => (n, false, rest)
  | "-c" :: n :: rest => (n, true, rest)
  | first :: rest =>
    match Text.rest? "-n" first, Text.rest? "-c" first, Text.rest? "-" first with
    | some n, _, _ => (n, false, rest)
    | _, some n, _ => (n, true, rest)
    | _, _, some n => if n.isNat then (n, false, rest) else ("10", false, first :: rest)
    | _, _, _ => if tool.isEmpty then ("10", false, []) else ("10", false, first :: rest)
  | [] => ("10", false, [])

def head (arguments : List String) : Act Unit := do
  let (n, inBytes, paths) := count "head" arguments
  let bytes ← contents "head" paths
  let keep {α : Type} (xs : List α) : List α :=
    match n.toInt? with
    | some (.ofNat n) => xs.take n
    | some i => xs.take (xs.length - i.natAbs)
    | none => xs
  putBytes (if inBytes then keep bytes else (keep (linesOf bytes)).flatten)

def tail (arguments : List String) : Act Unit := do
  let (n, inBytes, paths) := count "tail" arguments
  let bytes ← contents "tail" paths
  let keep {α : Type} (xs : List α) : List α :=
    match Text.rest? "+" n, n.toInt? with
    | some start, _ => xs.drop ((start.toNat?.getD 1) - 1)
    | none, some i => xs.drop (xs.length - i.natAbs)
    | none, none => xs
  putBytes (if inBytes then keep bytes else (keep (linesOf bytes)).flatten)

def wordsOf (s : List Char) : List (List Char) :=
  (s.splitBy fun a b => a.isWhitespace == b.isWhitespace).filter fun w =>
    !(w.head?.any Char.isWhitespace)

def wc (arguments : List String) : Act Unit := do
  let (os, paths) := options arguments
  let bytes ← contents "wc" paths
  let all := os.isEmpty
  let counts :=
    (if all || hasOption 'l' os then [bytes.count 10] else []) ++
    (if all || hasOption 'w' os then [(wordsOf (Text.decode bytes)).length] else []) ++
    (if hasOption 'm' os then [(Text.decode bytes).length] else []) ++
    (if all || hasOption 'c' os then [bytes.length] else [])
  let width :=
    if counts.length = 1 then 1
    else if paths.isEmpty then 7 else (toString bytes.length).length
  let shown (n : Nat) : String :=
    let text := toString n
    String.ofList (List.replicate (width - text.length) ' ') ++ text
  put (" ".intercalate (counts.map shown ++ paths) ++ "\n")

/-- The characters that a set of them names, with its ranges and classes. -/
def characters : (fuel : Nat) → List Char → List Char
  | 0, _ => []
  | fuel + 1, s =>
    let range (a b : Char) : List Char :=
      ((List.range (b.toNat + 1 - a.toNat)).map fun i => Char.ofNat (a.toNat + i))
    let upper := range 'A' 'Z'
    let lower := range 'a' 'z'
    let digits := range '0' '9'
    let blanks := ['\t', '\n', '\x0b', '\x0c', '\r', ' ']
    let classes : List (String × List Char) := [
      ("[:upper:]", upper), ("[:lower:]", lower), ("[:digit:]", digits),
      ("[:alpha:]", upper ++ lower), ("[:alnum:]", digits ++ upper ++ lower),
      ("[:space:]", blanks), ("[:blank:]", ['\t', ' '])]
    match classes.findSome? fun (name, cs) => (Text.after? name.toList s).map (cs, ·) with
    | some (cs, rest) => cs ++ characters fuel rest
    | none =>
      match s with
      | [] => []
      | '\\' :: c :: rest =>
        match c with
        | 'n' => '\n' :: characters fuel rest
        | 't' => '\t' :: characters fuel rest
        | 'r' => '\r' :: characters fuel rest
        | '0' => '\x00' :: characters fuel rest
        | c => c :: characters fuel rest
      | a :: '-' :: b :: rest => range a b ++ characters fuel rest
      | c :: rest => c :: characters fuel rest

def squeeze (cs : List Char) : List Char → List Char
  | a :: b :: s => if a = b ∧ cs.contains a then squeeze cs (b :: s) else a :: squeeze cs (b :: s)
  | s => s

def tr (arguments : List String) : Act Unit := do
  let (os, sets) := options arguments
  let s := Text.decode (← readAll)
  let set (i : Nat) : List Char :=
    let cs := ((sets[i]?).getD "").toList
    characters (cs.length + 1) cs
  let first := set 0
  let isIn (c : Char) : Bool := first.contains c != (hasOption 'c' os || hasOption 'C' os)
  let second := set 1
  let replace (c : Char) : Char :=
    if !isIn c then c
    else
      let i := (first.idxOf? c).getD second.length
      (second[i]?).getD ((second.getLast?).getD c)
  let result :=
    if hasOption 'd' os then s.filter (!isIn ·)
    else if sets.length < 2 then squeeze first s
    else if hasOption 's' os then squeeze second (s.map replace)
    else s.map replace
  put (String.ofList result)
  setStatus 0

def plainLines (bytes : List UInt8) : List (List UInt8) :=
  (linesOf bytes).map fun line => if line.getLast? = some 10 then line.dropLast else line

def putLines (lines : List (List UInt8)) : Act Unit := putBytes (lines.flatMap (· ++ [10]))

def leadingNumber (line : List UInt8) : Int :=
  let s := (Text.decode line).dropWhile Char.isWhitespace
  let (negative, s) := Numeral.takeSign s
  let n : Int := ((String.ofList (s.takeWhile Char.isDigit)).toNat?).getD 0
  if negative then -n else n

def sort (arguments : List String) : Act Unit := do
  let (os, paths) := options arguments
  let lines := plainLines (← contents "sort" paths)
  let before (a b : List UInt8) : Bool :=
    if hasOption 'n' os then
      let (x, y) := (leadingNumber a, leadingNumber b)
      x < y || (x == y && decide (a ≤ b))
    else decide (a ≤ b)
  let sorted := lines.mergeSort fun a b => if hasOption 'r' os then before b a else before a b
  putLines (if hasOption 'u' os then sorted.eraseDups else sorted)

def runs (lines : List (List UInt8)) : List (List (List UInt8)) := lines.splitBy (· == ·)

def uniq (arguments : List String) : Act Unit := do
  let (os, paths) := options arguments
  for run in runs (plainLines (← contents "uniq" paths)) do
    let count := toString run.length
    let shown := if hasOption 'd' os then run.length > 1 else !hasOption 'u' os || run.length = 1
    if shown then
      if hasOption 'c' os then
        put (String.ofList (List.replicate (7 - count.length) ' ') ++ count ++ " ")
      putLines (run.take 1)

def grep (arguments : List String) : Act Unit := do
  let (os, rest) := options arguments
  match rest with
  | [] =>
    complain "Usage: grep [OPTION]... PATTERNS [FILE]...\nTry 'grep --help' for more information."
    setStatus 2
  | pattern :: paths =>
    let lines := plainLines (← contents "grep" paths)
    let folded (s : List Char) : List Char := if hasOption 'i' os then s.map Char.toLower else s
    let pattern := folded pattern.toList
    let atStart := pattern.head? = some '^'
    let pattern := if atStart then pattern.tail else pattern
    let atEnd := pattern.getLast? = some '$'
    let pattern := if atEnd then pattern.dropLast else pattern
    let fits (line : List UInt8) : Bool :=
      let s := folded (Text.decode line)
      let found :=
        if atStart && atEnd then s == pattern
        else if atStart then pattern.isPrefixOf s
        else if atEnd then pattern.isSuffixOf s
        else Text.occurs pattern s
      found != hasOption 'v' os
    let found := lines.filter fits
    if !hasOption 'q' os then
      if hasOption 'c' os then put (toString found.length ++ "\n") else putLines found
    if (← get).status = 0 then succeed (!found.isEmpty) else setStatus 2

def tee (arguments : List String) : Act Unit := do
  let (os, paths) := options arguments
  let bytes ← readAll
  putBytes bytes
  for path in paths do
    let m ← get
    let before := if hasOption 'a' os then (m.file? path).getD [] else []
    set { m with files := Table.put (m.resolve path) (before ++ bytes) m.files }
  setStatus 0

def rev (arguments : List String) : Act Unit := do
  for line in linesOf (← contents "rev" arguments) do
    let s := Text.decode line
    if s.getLast? = some '\n' then put (String.ofList (s.dropLast.reverse ++ ['\n']))
    else put (String.ofList s.reverse)

end Rehearsal.Shell.Tool
