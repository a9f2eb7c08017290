import StepCalc.Expr.Eval
import StepCalc.Proofs.Expr.RoundTrip

/-!
# Expressions without places

Places and widths have no part in the meaning of an expression. Evaluation uses the place
of an operator only to report a failure there.
-/

namespace StepCalc

/-- The error without its place. -/
def EvalError.bare : EvalError → EvalError
  | divisionByZero _ => divisionByZero .start
  | integerOverflow operation _ => integerOverflow operation .start
  | snapshotLimitExceeded current limit => snapshotLimitExceeded current limit
  | historyBoundary message => historyBoundary message

theorem Op.apply_bare (op : Op) (a b : Value) (l : Location) :
    op.apply a b .start = (op.apply a b l).mapError EvalError.bare := by
  unfold apply
  cases op.exact a.toInt b.toInt with
  | none => rfl
  | some n => cases hvalue : Value.ofInt? n <;> simp only [hvalue] <;> rfl

namespace Expr

/-- Places only decide where an error is reported. -/
theorem eval_bare (e : Expr) : e.bare.eval = e.eval.mapError EvalError.bare := by
  induction e with
  | literal => rfl
  | binary op left right l ihl ihr =>
      simp only [bare, eval, ihl, ihr]
      cases left.eval with
      | error err => rfl
      | ok a =>
          cases right.eval with
          | error err => rfl
          | ok b => exact op.apply_bare a b l

/-- `e'` has the value of `e`, or fails with the same error in another place. -/
def EvalsAs (e' e : Expr) : Prop :=
  e'.eval.mapError EvalError.bare = e.eval.mapError EvalError.bare

theorem evalsAs_of_bare_eq {e e' : Expr} (h : e'.bare = e.bare) : e'.EvalsAs e := by
  rw [EvalsAs, ← eval_bare, ← eval_bare, h]

end Expr

end StepCalc
