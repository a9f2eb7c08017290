import StepCalc.Proofs.Expr.Unambiguous
import StepCalc.Proofs.History.ReadingBack

/-!
# Every position of a history has a text of its own

A step of evaluation takes one operator away, so what is left of an expression at two
snapshots has different numbers of operators. Since a text determines its expression, the
texts differ.
-/

namespace StepCalc

namespace Expr

variable {e f : Expr}

theorem operations_of_value? {v : Value} (h : e.value? = some v) : e.operations = 0 := by
  cases e with
  | literal => rfl
  | binary => cases h

theorem operations_contract {r : Redex} (h : e.redex? = some r) (v : Value) :
    (e.contract v).operations + 1 = e.operations := by
  induction e generalizing r with
  | literal => cases h
  | binary op left right l ihl ihr =>
      rw [redex?] at h
      rw [contract]
      split at h
      · rename_i a b ha hb
        simp only [operations, operations_of_value? ha, operations_of_value? hb]
      · rename_i hvalues
        cases hleft : left.redex? with
        | some r' =>
            have hstep := ihl hleft
            simp only [Option.isSome_some, if_true, operations]
            omega
        | none =>
            rw [hleft, Option.none_or] at h
            have hstep := ihr h
            simp only [Option.isSome_none, Bool.false_eq_true, if_false, operations]
            omega

/-- A step takes one operator away. -/
theorem operations_of_step? (h : e.step? = some (.ok f)) : f.operations + 1 = e.operations := by
  obtain ⟨r, hr, hmap⟩ := Option.map_eq_some_iff.1 h
  cases heval : r.eval with
  | error err =>
      rw [heval] at hmap
      cases hmap
  | ok v =>
      rw [heval] at hmap
      obtain rfl := Except.ok.inj hmap
      exact operations_contract hr v

theorem operations_of_record {s : Snapshot} {i : Nat} (h : e.record.1[i]? = some s) :
    (s.residual e).operations + i = e.operations := by
  induction i generalizing s with
  | zero => rw [residual_of_record h, reduced_zero, Nat.add_zero]
  | succ i ih =>
      have hlt : i < e.record.1.length := by
        have := (List.getElem?_eq_some_iff.1 h).1
        omega
      have hbefore := List.getElem?_eq_getElem hlt
      have hsum := ih hbefore
      have hstep := operations_of_step? (step?_residual hbefore h)
      omega

theorem operations_bare (e : Expr) : e.bare.operations = e.operations := by
  induction e with
  | literal => rfl
  | binary op left right l ihl ihr => rw [bare, operations, operations, ihl, ihr]

theorem text_ne_of_operations_ne (h : e.operations ≠ f.operations) : e.text ≠ f.text := by
  intro htext
  apply h
  rw [← operations_bare e, text_eq_iff_bare_eq.1 htext, operations_bare]

end Expr

namespace Replay

variable {e : Expr} {limit i j : Nat} {requests : List Request}

theorem text_of_snapshot? {r : Replay} {s : Snapshot} (h : r.snapshot? = some s) :
    r.text = (s.residual r.expr).text := by
  rw [text, h]
  exact (Expr.text_substitute s.resolved r.expr).symm

/-- Inside the history the text is that of what is left of the expression there. -/
theorem exists_text_moveTo (hi : i < ((ofExpr e limit).asked requests).total) :
    ∃ s, e.record.1[i]? = some s ∧
      (((ofExpr e limit).asked requests).moveTo i).text = (s.residual e).text := by
  have hexpr := expr_asked e limit requests
  obtain ⟨-, hasked⟩ | ⟨-, p, -, hasked⟩ := asked_cases e limit requests
  · rw [hasked] at hi
    exact absurd hi (Nat.not_lt_zero i)
  · rw [hasked] at hi hexpr ⊢
    have hsnapshot : (((ofExpr e limit).run.2.moveTo p).moveTo i).snapshot? =
        some (ofExpr e limit).run.2.history.snapshots[i] := Array.getElem?_eq_getElem hi
    refine ⟨_, getElem?_record_of_get?_run hsnapshot, ?_⟩
    rw [text_of_snapshot? hsnapshot]
    exact congrArg (fun e => (Snapshot.residual _ e).text) hexpr

theorem text_moveTo_ne (hij : i < j) (hj : j < ((ofExpr e limit).asked requests).total) :
    (((ofExpr e limit).asked requests).moveTo i).text ≠
      (((ofExpr e limit).asked requests).moveTo j).text := by
  obtain ⟨s, hs, htext⟩ := exists_text_moveTo (Nat.lt_trans hij hj)
  obtain ⟨s', hs', htext'⟩ := exists_text_moveTo hj
  have hsum := Expr.operations_of_record hs
  have hsum' := Expr.operations_of_record hs'
  rw [htext, htext']
  apply Expr.text_ne_of_operations_ne
  omega

/-- What is written determines what it was written from, but for places and widths, whatever
values it holds. So a replay never shows the same text at two positions of its history. -/
theorem text_determines_expression :
    (∀ e f : Expr, e.text = f.text ↔ e.bare = f.bare) ∧
      ∀ (e : Expr) (limit : Nat) (requests : List Request) (i j : Nat), i < j →
        j < ((ofExpr e limit).asked requests).total →
        (((ofExpr e limit).asked requests).moveTo i).text ≠
          (((ofExpr e limit).asked requests).moveTo j).text := by
  constructor
  · intro e f
    exact Expr.text_eq_iff_bare_eq
  · intro e limit requests i j hij hj
    exact text_moveTo_ne hij hj

/-- The two positions of the history of `2-5+4` before its end. -/
theorem text_determines_expression_dip :
    1 < ((ofExpr dip 1000).asked [.run]).total ∧
      (((ofExpr dip 1000).asked [.run]).moveTo 0).text = "2 - 5 + 4" ∧
      (((ofExpr dip 1000).asked [.run]).moveTo 1).text = "(-3) + 4" ∧
      (((ofExpr dip 1000).asked [.run]).moveTo 0).text ≠
        (((ofExpr dip 1000).asked [.run]).moveTo 1).text := by
  have htotal : 1 < ((ofExpr dip 1000).asked [.run]).total := by decide +kernel
  exact ⟨htotal, by decide +kernel, by decide +kernel,
    text_determines_expression.2 dip 1000 [.run] 0 1 (by decide) htotal⟩

end Replay

end StepCalc
