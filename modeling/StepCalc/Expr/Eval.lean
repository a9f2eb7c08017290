import StepCalc.EvalError
import StepCalc.Expr.Parser

/-!
# Evaluation

Operands are evaluated from left to right, and the first operator that has no
value in range decides the error.
-/

namespace StepCalc

/-- An operation as messages show it. -/
def Op.operation (op : Op) (a b : Value) : String :=
  s!"{a.text} {op.symbol} {b.text}"

/-- Applies the operator that stands at `location`. -/
def Op.apply (op : Op) (a b : Value) (location : Location) : Except EvalError Value :=
  match op.exact a.toInt b.toInt with
  | none => .error (.divisionByZero location)
  | some n =>
    match Value.ofInt? n with
    | some v => .ok v
    | none => .error (.integerOverflow (op.operation a b) location)

def Expr.eval : Expr → Except EvalError Value
  | literal v _ _ => .ok v
  | binary op left right location =>
    match left.eval with
    | .error e => .error e
    | .ok a =>
      match right.eval with
      | .error e => .error e
      | .ok b => op.apply a b location

/-- Either step of finding a text's value can fail. -/
inductive Error where
  | parse (e : ParseError)
  | eval (e : EvalError)
  deriving DecidableEq, Repr

namespace Error

def location? : Error → Option Location
  | parse e => some e.location
  | eval e => e.location?

def message : Error → String
  | parse e => e.message
  | eval e => e.message

end Error

/-- The value of the expression that a source text spells. -/
def evaluate (source : String) : Except Error Value :=
  match parse source with
  | .error e => .error (.parse e)
  | .ok e => e.eval.mapError .eval

end StepCalc
