import StepCalc.History.Store

/-!
# Replaying an evaluation

A replay runs an evaluation once and then moves back and forth over the
snapshots that its history kept. Its position is a snapshot number, zero while
there is none; moving never leaves the history.
-/

namespace StepCalc

structure Replay where
  expr : Expr
  history : History
  position : Nat
  outcome : Option (Except EvalError Value)

namespace Replay

def ofExpr (e : Expr) (limit : Nat) : Replay :=
  ⟨e, .empty limit, 0, none⟩

/-- The number of snapshots. -/
def total (r : Replay) : Nat :=
  r.history.length

/-- The last position there is. -/
def last (r : Replay) : Nat :=
  r.total - 1

/-- The history that a run keeps, and how the run ends. -/
def recorded (r : Replay) : History × Except EvalError Value :=
  let (snapshots, outcome) := r.expr.record
  match r.history.keep snapshots with
  | (h, none) => (h, outcome)
  | (h, some _) => (h, .error (.snapshotLimitExceeded h.used h.limit))

/-- Evaluates the expression unless that is done already, and stands at the last
snapshot afterwards. The outcome of the first run is that of every later one. -/
def run (r : Replay) : Except EvalError Value × Replay :=
  match r.outcome with
  | some outcome => (outcome, r)
  | none =>
    let (history, outcome) := r.recorded
    (outcome, { r with history, position := history.length - 1, outcome := some outcome })

def forward (r : Replay) : Except EvalError Replay :=
  if r.position + 1 < r.total then .ok { r with position := r.position + 1 }
  else .error (.historyBoundary "No more snapshots available (evaluation finished)")

/-- Goes forward at most `n` steps; also gives the number of steps made. -/
def advance (r : Replay) : Nat → Replay × Nat
  | 0 => (r, 0)
  | n + 1 =>
    match r.forward with
    | .ok r =>
      let (r, made) := r.advance n
      (r, made + 1)
    | .error _ => (r, 0)

def backward (r : Replay) : Except EvalError Replay :=
  if r.position = 0 then .error (.historyBoundary "Already at the beginning of evaluation")
  else .ok { r with position := r.position - 1 }

def rewind (r : Replay) : Except EvalError Replay :=
  if r.total = 0 then .error (.historyBoundary "No snapshots available")
  else .ok { r with position := 0 }

def toEnd (r : Replay) : Replay :=
  { r with position := r.last }

def snapshot? (r : Replay) : Option Snapshot :=
  r.history.get? r.position

def atEnd (r : Replay) : Bool :=
  decide (r.total ≤ r.position + 1)

def finished (r : Replay) : Bool :=
  r.outcome.isSome

/-- The final value, shown only at the last snapshot. -/
def result? (r : Replay) : Option Value :=
  match r.outcome with
  | some (.ok v) => if r.atEnd then some v else none
  | _ => none

/-- What stopped the evaluation. -/
def failure? (r : Replay) : Option EvalError :=
  match r.outcome with
  | some (.error e) => some e
  | _ => none

/-- The text of the expression at the current position. -/
def text (r : Replay) : String :=
  match r.snapshot? with
  | some s => s.text r.expr
  | none => r.expr.text

/-- The reductions up to the current position. -/
def reductions (r : Replay) : List Reduction :=
  (r.history.upTo r.position).filterMap (·.reduction)

/-- The values of all nodes reduced up to the current position. -/
def values (r : Replay) : Resolved :=
  r.reductions.foldl (fun values s => values.insert s.node s.value) ∅

theorem forward_eq_ok_iff {r r' : Replay} :
    r.forward = .ok r' ↔ r.position + 1 < r.total ∧ r' = { r with position := r.position + 1 } := by
  by_cases h : r.position + 1 < r.total <;> simp [forward, h, eq_comm]

theorem backward_eq_ok_iff {r r' : Replay} :
    r.backward = .ok r' ↔ 0 < r.position ∧ r' = { r with position := r.position - 1 } := by
  by_cases h : r.position = 0 <;> simp [backward, h, eq_comm, Nat.pos_iff_ne_zero]

theorem rewind_eq_ok_iff {r r' : Replay} :
    r.rewind = .ok r' ↔ 0 < r.total ∧ r' = { r with position := 0 } := by
  by_cases h : r.total = 0 <;> simp [rewind, h, eq_comm, Nat.pos_iff_ne_zero]

@[simp] theorem run_of_outcome {r : Replay} {o : Except EvalError Value} (h : r.outcome = some o) :
    r.run = (o, r) := by
  simp [run, h]

/-- Running again changes nothing. -/
theorem run_run (r : Replay) : r.run.2.run = r.run := by
  unfold run
  cases h : r.outcome with
  | some o => simp [h]
  | none => rfl

end Replay

end StepCalc
