/-! A string in single quotes writes a quote inside it twice. A string in double quotes puts a
backslash before any character that would otherwise end it. The functions `single?` and `double?`
find where a string ends; `quoteSingle` and `quoteDouble` write one and `unquote` reads it back. -/

namespace Rehearsal.Expression.Quoted

/-- The number of characters up to the quote that closes a string in single quotes. Where a pair
of quotes is not followed by a closing one, its first quote closes the string. -/
def single? : List Char → Option Nat
  | [] => none
  | '\'' :: '\'' :: s =>
    match single? s with
    | some n => some (n + 2)
    | none => some 1
  | '\'' :: _ => some 1
  | _ :: s => (single? s).map (· + 1)

/-- The number of characters up to the quote that closes a string in double quotes. -/
def double? : List Char → Option Nat
  | [] => none
  | '"' :: _ => some 1
  | '\\' :: [] => none
  | '\\' :: c :: s => if c = '\n' then none else (double? s).map (· + 2)
  | _ :: s => (double? s).map (· + 1)

def length? : List Char → Option Nat
  | '\'' :: s => (single? s).map (· + 1)
  | '"' :: s => (double? s).map (· + 1)
  | _ => none

def unquoteSingle : List Char → List Char
  | [] => []
  | '\'' :: '\'' :: s => '\'' :: unquoteSingle s
  | c :: s => c :: unquoteSingle s

/-- Drops the backslashes that stand before a character of the same line. -/
def unquoteDouble : List Char → List Char
  | [] => []
  | '\\' :: c :: s => if c = '\n' then '\\' :: '\n' :: unquoteDouble s else c :: unquoteDouble s
  | c :: s => c :: unquoteDouble s

def unquote : List Char → List Char
  | '\'' :: s => unquoteSingle s.dropLast
  | s => unquoteDouble s.tail.dropLast

def quoteSingle : List Char → List Char :=
  List.flatMap fun c => if c = '\'' then ['\'', '\''] else [c]

def quoteDouble : List Char → List Char :=
  List.flatMap fun c => if c = '\\' ∨ c = '"' then ['\\', c] else [c]

theorem unquoteSingle_quoteSingle (s : List Char) : unquoteSingle (quoteSingle s) = s := by
  induction s with
  | nil => rfl
  | cons c s ih =>
    by_cases quote : c = '\''
    · subst quote
      simpa [quoteSingle, unquoteSingle] using ih
    · simpa [quoteSingle, unquoteSingle, quote] using ih

theorem unquoteDouble_quoteDouble (s : List Char) : unquoteDouble (quoteDouble s) = s := by
  induction s with
  | nil => rfl
  | cons c s ih =>
    by_cases escaped : c = '\\' ∨ c = '"'
    · have line : c ≠ '\n' := by rcases escaped with rfl | rfl <;> decide
      simpa [quoteDouble, unquoteDouble, escaped, line] using ih
    · have plain : c ≠ '\\' ∧ c ≠ '"' := not_or.mp escaped
      simpa [quoteDouble, unquoteDouble, plain] using ih

end Rehearsal.Expression.Quoted
