import Rehearsal.Number.Reading
import Rehearsal.Shell.Machine

/-! Conditions on texts, numbers and files, as the words of a command. -/

namespace Rehearsal.Shell.Test

def unary? (m : Machine) (operator operand : String) : Option Bool :=
  match operator with
  | "-z" => some operand.isEmpty
  | "-n" => some !operand.isEmpty
  | "-e" | "-a" => some (m.hasPath operand)
  | "-f" => some (m.file? operand).isSome
  | "-d" => some (!operand.isEmpty && m.isDirectory operand)
  | "-s" => some ((m.file? operand).any (!·.isEmpty) || m.isDirectory operand)
  | "-r" | "-w" => some (!operand.isEmpty && m.hasPath operand)
  | "-x" => some (!operand.isEmpty && m.isDirectory operand)
  | "-L" | "-h" | "-p" | "-S" | "-b" | "-c" | "-t" => some false
  | "-v" => some (m.valueOf? operand).isSome
  | _ => none

def order? : String → Option (Int → Int → Bool)
  | "-eq" => some fun a b => a == b
  | "-ne" => some fun a b => a != b
  | "-lt" => some fun a b => a < b
  | "-le" => some fun a b => a ≤ b
  | "-gt" => some fun a b => a > b
  | "-ge" => some fun a b => a ≥ b
  | _ => none

def number (operand : String) : Except String Int :=
  let digits := operand.toList.filter (· ≠ '_')
  match if digits.length = operand.length then Numeral.integer? 10 operand.toList else none with
  | some i => .ok i
  | none => .error (operand ++ ": integer expression expected")

def binary? (operator left right : String) : Option (Except String Bool) :=
  match operator with
  | "=" | "==" => some (.ok (left == right))
  | "!=" => some (.ok (left != right))
  | "<" => some (.ok (left < right))
  | ">" => some (.ok (right < left))
  | _ => (order? operator).map fun holds => do return holds (← number left) (← number right)

def holds (m : Machine) : (fuel : Nat) → List String → Except String Bool
  | 0, _ => .error "too many arguments"
  | _ + 1, [] => .ok false
  | _ + 1, [word] => .ok !word.isEmpty
  | fuel + 1, words =>
    match words with
    | [operator, operand] =>
      if operator = "!" then .ok operand.isEmpty
      else match unary? m operator operand with
        | some b => .ok b
        | none => .error (operator ++ ": unary operator expected")
    | _ =>
      let simple : Option (Except String Bool) := match words with
        | [left, operator, right] => binary? operator left right
        | _ => none
      match simple with
      | some result => result
      | none =>
        match words.findIdx? (· == "-o") with
        | some i => do
          if ← holds m fuel (words.take i) then return true
          holds m fuel (words.drop (i + 1))
        | none =>
          match words.findIdx? (· == "-a") with
          | some i => do
            if !(← holds m fuel (words.take i)) then return false
            holds m fuel (words.drop (i + 1))
          | none =>
            if words.head? = some "!" then (holds m fuel words.tail).map (!·)
            else if words.head? = some "(" ∧ words.getLast? = some ")" then
              holds m fuel words.tail.dropLast
            else match words with
              | [_, operator, _] => .error (operator ++ ": binary operator expected")
              | _ => .error "too many arguments"

end Rehearsal.Shell.Test
