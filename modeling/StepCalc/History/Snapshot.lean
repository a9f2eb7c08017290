import StepCalc.Expr.Eval
import StepCalc.Expr.Printer

/-!
# Snapshots

Evaluation reduces one operator at a time. A snapshot shows an expression after
some of these reductions: the outermost reduced nodes with their values, and the
reduction made last. `Expr.record` lists the snapshots of a whole evaluation,
the first before any reduction and then one after each, and says how it ended.
-/

namespace StepCalc

/-- One operator replaced by its value. -/
structure Reduction where
  node : Nat
  op : Op
  left : Value
  right : Value
  value : Value
  span : Span
  location : Location
  deriving DecidableEq, Repr

def Reduction.describe (r : Reduction) : String :=
  s!"{r.op.operation r.left r.right} = {r.value.text}"

structure Snapshot where
  resolved : Resolved
  reduction : Option Reduction

namespace Snapshot

/-- The memory a snapshot is charged for, in bytes: a fixed part and a part for
each value. -/
def size (s : Snapshot) : Nat :=
  112 + 16 * s.resolved.size

/-- The text of `e` at this snapshot. -/
def text (s : Snapshot) (e : Expr) : String :=
  e.render s.resolved

end Snapshot

/-- A recording in progress: the number of the node to be visited next, the
outermost reduced nodes, and the snapshots taken. -/
structure Tape where
  next : Nat
  resolved : Resolved
  snapshots : Array Snapshot

namespace Tape

def start : Tape := ⟨0, ∅, #[⟨∅, none⟩]⟩

/-- Goes to the next node. -/
def visit (t : Tape) : Tape := { t with next := t.next + 1 }

/-- Records `r`, which uses up the values of the nodes `left` and `right`. -/
def reduce (t : Tape) (left right : Nat) (r : Reduction) : Tape :=
  let resolved := ((t.resolved.erase left).erase right).insert r.node r.value
  { t with resolved, snapshots := t.snapshots.push ⟨resolved, some r⟩ }

end Tape

namespace Expr

/-- Evaluates `e`, whose root is the node to be visited next, and records each
reduction. -/
def recordOnto (e : Expr) (t : Tape) : Tape × Except EvalError Value :=
  match e with
  | literal v _ _ => (t.visit, .ok v)
  | binary op left right location =>
    let n := t.next
    match left.recordOnto t.visit with
    | (t, .error err) => (t, .error err)
    | (t, .ok a) =>
      let m := t.next
      match right.recordOnto t with
      | (t, .error err) => (t, .error err)
      | (t, .ok b) =>
        match op.apply a b location with
        | .error err => (t, .error err)
        | .ok v =>
          let span := ⟨left.firstOffset, right.lastOffset⟩
          (t.reduce (n + 1) m ⟨n, op, a, b, v, span, location⟩, .ok v)

/-- The snapshots of the evaluation of `e`, and its outcome. -/
def record (e : Expr) : List Snapshot × Except EvalError Value :=
  let (t, outcome) := e.recordOnto .start
  (t.snapshots.toList, outcome)

/-- Recording evaluates: its outcome is the value or error of `e`. -/
theorem recordOnto_snd (e : Expr) (t : Tape) : (e.recordOnto t).2 = e.eval := by
  induction e generalizing t with
  | literal => rfl
  | binary op left right location ihl ihr =>
    rw [recordOnto, eval, ← ihl t.visit]
    rcases left.recordOnto t.visit with ⟨t', _ | a⟩
    · rfl
    · simp only [← ihr t']
      rcases right.recordOnto t' with ⟨t'', _ | b⟩
      · rfl
      · dsimp only
        cases op.apply a b location <;> rfl

theorem record_snd (e : Expr) : e.record.2 = e.eval :=
  e.recordOnto_snd .start

end Expr

end StepCalc
