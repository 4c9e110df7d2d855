import Rehearsal.Expression.Error
import Rehearsal.Expression.Quoted
import Rehearsal.Text.Blank
import Rehearsal.Text.Digit

/-! An expression text is a sequence of tokens and blanks. `lexeme?` finds the longest one that a
text starts with, and `tokenize` takes them off one after the other. -/

namespace Rehearsal.Expression

open Rehearsal.Text

def isNameStart (c : Char) : Bool := c.isAlpha || c == '_'

def isNameChar (c : Char) : Bool := c.isAlphanum || c == '_' || c == '-'

def isPartChar (c : Char) : Bool := isNameChar c || c == '*'

def numeralLength (s : List Char) : Nat :=
  let whole := (s.takeWhile isDecimalDigit).length
  match s.dropWhile isDecimalDigit with
  | '.' :: rest =>
    match (rest.takeWhile isDecimalDigit).length with
    | 0 => whole
    | fraction => whole + 1 + fraction
  | _ => whole

def numeral? : List Char → Option Nat
  | '-' :: c :: s => if isDecimalDigit c then some (1 + numeralLength (c :: s)) else none
  | c :: s => if isDecimalDigit c then some (numeralLength (c :: s)) else none
  | [] => none

/-- The length of the later parts of a name, each with the dot before it. A dot counts only if a
part follows; `inPart` tells whether the text is already inside a part. -/
def partsLength : (inPart : Bool) → List Char → Nat
  | _, [] => 0
  | _, '.' :: c :: s => if isPartChar c then 2 + partsLength true s else 0
  | inPart, c :: s => if inPart && isPartChar c then 1 + partsLength inPart s else 0

def name? : List Char → Option Nat
  | [] => none
  | c :: s =>
    if isNameStart c then
      let first := s.takeWhile isNameChar
      some (1 + first.length + partsLength false (s.dropWhile isNameChar))
    else none

def operator? : List Char → Option Nat
  | '=' :: '=' :: _ => some 2
  | '!' :: '=' :: _ => some 2
  | '<' :: '=' :: _ => some 2
  | '>' :: '=' :: _ => some 2
  | '&' :: '&' :: _ => some 2
  | '|' :: '|' :: _ => some 2
  | '<' :: _ => some 1
  | '>' :: _ => some 1
  | '!' :: _ => some 1
  | _ => none

def punctuation? : List Char → Option Nat
  | '(' :: _ => some 1
  | ')' :: _ => some 1
  | ',' :: _ => some 1
  | _ => none

def lexeme? (s : List Char) : Option (TokenKind × Nat) :=
  ((Quoted.length? s).map (TokenKind.quoted, ·)).orElse fun _ =>
  ((numeral? s).map (TokenKind.number, ·)).orElse fun _ =>
  ((operator? s).map (TokenKind.operator, ·)).orElse fun _ =>
  ((punctuation? s).map (TokenKind.punctuation, ·)).orElse fun _ =>
  (name? s).map (TokenKind.name, ·)

/-- The tokens of a text that starts at `position`, of which the first `skip` characters belong to
the token before. -/
def tokenizeFrom : (skip position : Nat) → List Char → Except ParseError (List Token)
  | _, _, [] => .ok []
  | skip + 1, position, _ :: s => tokenizeFrom skip (position + 1) s
  | 0, position, c :: s =>
    if isBlank c then tokenizeFrom 0 (position + 1) s
    else match lexeme? (c :: s) with
      | some (kind, n) =>
        (tokenizeFrom (n - 1) (position + 1) s).map
          (⟨kind, String.ofList ((c :: s).take n), position⟩ :: ·)
      | none => .error (.character c position)

def tokenize (text : String) : Except ParseError (List Token) := tokenizeFrom 0 0 text.toList

end Rehearsal.Expression
