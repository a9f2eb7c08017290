import StepCalc.Token.Basic

/-!
# Parse errors

The first token that cannot continue any expression decides the error.
-/

namespace StepCalc

/-- What could have stood in place of an unexpected token. -/
inductive Expected where
  | operand
  | closeParen
  | continuation
  deriving DecidableEq, Repr

def Expected.describe : Expected → String
  | operand => "a number or '('"
  | closeParen => "')'"
  | continuation => "an operator or end of input"

inductive ParseError where
  | unexpectedCharacter (c : Char) (location : Location)
  | unexpectedToken (expected : Expected) (found : Kind) (location : Location)
  | literalOutOfRange (digits : List Char) (location : Location)
  | nestingTooDeep (location : Location)
  deriving DecidableEq, Repr

namespace ParseError

def location : ParseError → Location
  | unexpectedCharacter _ l | unexpectedToken _ _ l | literalOutOfRange _ l | nestingTooDeep l => l

/-- The number of groups that may be open at once. -/
def maxNesting : Nat := 256

/-- What is wrong, apart from the place. -/
def reason : ParseError → String
  | unexpectedCharacter c _ => s!"unexpected character '{c}'"
  | unexpectedToken expected found _ => s!"expected {expected.describe}, found {found.name}"
  | literalOutOfRange digits _ => s!"integer literal {String.ofList digits} is out of range"
  | nestingTooDeep _ => s!"parentheses nested deeper than {maxNesting} levels"

def message (e : ParseError) : String :=
  s!"Parse error at {e.location.describe}: {e.reason}"

end ParseError

end StepCalc
