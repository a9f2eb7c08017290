import StepCalc.History.Snapshot

/-!
# Recording as a relation

`Records e t t' r` lists the ways in which recording an expression ends: with a
value, or with the error of an operand or of the operator itself. What a recording
keeps is proved by induction on it, one case for each of these ways.
-/

namespace StepCalc

namespace Tape

@[simp] theorem snapshots_visit (t : Tape) : t.visit.snapshots = t.snapshots := rfl

@[simp] theorem size_snapshots_reduce (t : Tape) (left right : Nat) (r : Reduction) :
    (t.reduce left right r).snapshots.size = t.snapshots.size + 1 := by
  simp [reduce]

theorem toList_snapshots_reduce (t : Tape) (left right : Nat) (r : Reduction) :
    (t.reduce left right r).snapshots.toList =
      t.snapshots.toList ++ [⟨(t.reduce left right r).resolved, some r⟩] := by
  simp [reduce]

end Tape

/-- Recording `e` on `t` gives `t'` and comes to `r`. -/
inductive Records : Expr → Tape → Tape → Except EvalError Value → Prop
  | literal (v : Value) (l : Location) (width : Nat) (t : Tape) :
      Records (.literal v l width) t t.visit (.ok v)
  | leftFails {left : Expr} {t t' : Tape} {err : EvalError} (op : Op) (right : Expr) (l : Location)
      (hleft : Records left t.visit t' (.error err)) :
      Records (.binary op left right l) t t' (.error err)
  | rightFails {left right : Expr} {t t' t'' : Tape} {a : Value} {err : EvalError} (op : Op)
      (l : Location) (hleft : Records left t.visit t' (.ok a))
      (hright : Records right t' t'' (.error err)) :
      Records (.binary op left right l) t t'' (.error err)
  | fails {left right : Expr} {t t' t'' : Tape} {a b : Value} {op : Op} {l : Location}
      {err : EvalError} (hleft : Records left t.visit t' (.ok a))
      (hright : Records right t' t'' (.ok b)) (happly : op.apply a b l = .error err) :
      Records (.binary op left right l) t t'' (.error err)
  | reduces {left right : Expr} {t t' t'' : Tape} {a b v : Value} {op : Op} {l : Location}
      (hleft : Records left t.visit t' (.ok a)) (hright : Records right t' t'' (.ok b))
      (happly : op.apply a b l = .ok v) :
      Records (.binary op left right l) t
        (t''.reduce (t.next + 1) t'.next
          ⟨t.next, op, a, b, v, ⟨left.firstOffset, right.lastOffset⟩, l⟩) (.ok v)

theorem records_recordOnto (e : Expr) (t : Tape) :
    Records e t (e.recordOnto t).1 (e.recordOnto t).2 := by
  induction e generalizing t with
  | literal v l width => exact .literal v l width t
  | binary op left right l ihl ihr =>
      have hleft := ihl t.visit
      rw [Expr.recordOnto]
      generalize left.recordOnto t.visit = x at hleft ⊢
      obtain ⟨t', err | a⟩ := x
      · exact .leftFails op right l hleft
      · have hright := ihr t'
        dsimp only
        generalize right.recordOnto t' = y at hright ⊢
        obtain ⟨t'', err | b⟩ := y
        · exact .rightFails op l hleft hright
        · dsimp only
          cases happly : op.apply a b l with
          | error err => exact .fails hleft hright happly
          | ok v => exact .reduces hleft hright happly

theorem Records.eval_eq {e : Expr} {t t' : Tape} {r : Except EvalError Value}
    (h : Records e t t' r) : e.eval = r := by
  induction h with
  | literal => rfl
  | leftFails op right l _ ih => simp [Expr.eval, ih]
  | rightFails op l _ _ ihl ihr => simp [Expr.eval, ihl, ihr]
  | fails _ _ happly ihl ihr | reduces _ _ happly ihl ihr => simp [Expr.eval, ihl, ihr, happly]

/-- A recording that comes to a value has visited every node of the expression. -/
theorem Records.next_eq {e : Expr} {t t' : Tape} {v : Value} (h : Records e t t' (.ok v)) :
    t'.next = t.next + e.size := by
  generalize hr : Except.ok v = r at h
  induction h generalizing v with
  | literal => rfl
  | leftFails | rightFails | fails => cases hr
  | @reduces left right t t' t'' a b v op l _ _ _ ihl ihr =>
      have hleft : t'.next = t.next + 1 + left.size := ihl rfl
      have hright : t''.next = t'.next + right.size := ihr rfl
      simp only [Tape.reduce, Expr.size]
      omega

end StepCalc
