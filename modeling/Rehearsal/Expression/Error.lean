import Rehearsal.Value.Text

/-! Why a text is not an expression, why an expression has no value, and the wording of both. -/

namespace Rehearsal.Expression

inductive TokenKind where
  | quoted
  | number
  | operator
  | punctuation
  | name
  deriving DecidableEq, Repr

structure Token where
  kind : TokenKind
  text : String
  position : Nat
  deriving DecidableEq, Repr

inductive ParseError where
  | character (c : Char) (position : Nat)
  | empty
  | unexpectedEnd
  | unexpected (token : Token)
  /-- Another token, or the end, stands where a closing one has to. -/
  | missing (text : String) (found : Option Token)
  | functionName (name : String)
  deriving DecidableEq, Repr

def Token.located (t : Token) : String :=
  "'" ++ t.text ++ "' at position " ++ toString t.position

namespace ParseError

def message : ParseError → String
  | character c position =>
    "Unexpected character " ++ Scalar.quotedText (String.singleton c) ++ " at position " ++
      toString position
  | empty => "Empty expression"
  | unexpectedEnd => "Unexpected end of expression"
  | unexpected token => "Unexpected " ++ token.located
  | missing text found =>
    "Expected '" ++ text ++ "', found " ++ (found.map Token.located).getD "end of expression"
  | functionName name => "Invalid function name '" ++ name ++ "'"

end ParseError

/-- An output that a condition mentions and that is not recorded. -/
inductive MissingOutput where
  | job (job name : String)
  | step (step name : String)
  deriving DecidableEq, Repr

namespace MissingOutput

def description : MissingOutput → String
  | job j name => "job output: " ++ j ++ "." ++ name
  | step i name => "step output: " ++ i ++ "." ++ name

end MissingOutput

inductive EvaluationError where
  | undefinedReference (path : String)
  | unknownFunction (name : String)
  | invalidJson
  | missingOutput (output : MissingOutput)
  deriving DecidableEq, Repr

namespace EvaluationError

def message : EvaluationError → String
  | undefinedReference path => "Undefined reference '" ++ path ++ "'"
  | unknownFunction name => "Unknown function '" ++ name ++ "'"
  | invalidJson => "fromJSON: invalid JSON: <detail>"
  | missingOutput output => "references unknown " ++ output.description

end EvaluationError
end Rehearsal.Expression
