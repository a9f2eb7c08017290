import StepCalc.Expr.Index
import StepCalc.History.Store

/-!
# The reducing loop

A run goes over the nodes of an index in the order of evaluation. It keeps the value of
every node in a table and the outermost reduced nodes in a map, and offers the history a
snapshot before the first reduction and after each. The first error ends the loop, be it
of an operator or of the history, which then has no room.
-/

namespace StepCalc

/-- Keeps `s`, or says how much memory is in use. -/
def History.capture (h : History) (s : Snapshot) : Except EvalError History :=
  match h.push s with
  | .ok h' => .ok h'
  | .error _ => .error (.snapshotLimitExceeded h.used h.limit)

namespace Index

/-- Reduces the nodes in the given order. There is no result if a number is out of range. -/
def reduceIn? (ix : Index) (values : Array Value) (resolved : Resolved) (h : History) :
    List Nat → Option (History × Except EvalError Value)
  | [] => do return (h, .ok (← values[0]?))
  | i :: rest => do
    match ← ix.nodes[i]? with
    | .literal v _ _ => ix.reduceIn? (← write? values i v) resolved h rest
    | .binary op _ _ location =>
      let (left, right) ← ix.operands? i
      match op.apply (← values[left]?) (← values[right]?) location with
      | .error err => return (h, .error err)
      | .ok v =>
        let values ← write? values i v
        let resolved := ((resolved.erase left).erase right).insert i v
        let reduction : Reduction :=
          ⟨i, op, ← values[left]?, ← values[right]?, v, ← ix.spans[i]?, location⟩
        match h.capture ⟨resolved, some reduction⟩ with
        | .error err => return (h, .error err)
        | .ok h => ix.reduceIn? values resolved h rest

/-- Reduces all nodes: the history afterwards, and the value or the first error. -/
def reduceAll? (ix : Index) (h : History) : Option (History × Except EvalError Value) :=
  match h.capture ⟨∅, none⟩ with
  | .error err => some (h, .error err)
  | .ok h => do
    let order ← ix.postOrder?
    ix.reduceIn? (Array.replicate ix.count 0) ∅ h order.toList

end Index

end StepCalc
