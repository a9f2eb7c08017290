import StepCalc.Source.Location

/-!
# Evaluation errors

What stops an evaluation, and what a history answers when it is asked to go
where it cannot.
-/

namespace StepCalc

inductive EvalError where
  | divisionByZero (location : Location)
  | integerOverflow (operation : String) (location : Location)
  | snapshotLimitExceeded (current limit : Nat)
  | historyBoundary (message : String)
  deriving DecidableEq, Repr

namespace EvalError

def location? : EvalError → Option Location
  | divisionByZero l | integerOverflow _ l => some l
  | snapshotLimitExceeded .. | historyBoundary _ => none

def message : EvalError → String
  | divisionByZero l => s!"Division by zero at {l.describe}"
  | integerOverflow operation l =>
    s!"Integer overflow in operation: {operation} at {l.describe}"
  | snapshotLimitExceeded current limit =>
    s!"Snapshot memory limit exceeded: {current} bytes used, limit is {limit}"
  | historyBoundary message => message

end EvalError

end StepCalc
