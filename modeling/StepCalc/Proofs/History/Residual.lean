import StepCalc.Proofs.Expr.SmallStep
import StepCalc.Proofs.History.Snapshots

/-!
# The history as a small-step evaluation

A snapshot stands for the expression that is left when its values are put in the place of
their nodes. From one snapshot of a run to the next this expression makes one step, and it
always evaluates as the whole does. A run that comes to a value ends with that value as a
literal; one that fails ends at the step that fails.
-/

namespace StepCalc

/-- What is left of `e` at this snapshot. -/
def Snapshot.residual (s : Snapshot) (e : Expr) : Expr :=
  e.substitute s.resolved 0

namespace Expr

variable {e : Expr} {s s' : Snapshot} {i : Nat}

theorem residual_of_record (h : e.record.1[i]? = some s) : s.residual e = e.reduced i := by
  apply substitute_eq_reduced
  intro n v _ _
  exact resolved_of_record h n v

theorem step?_residual (h : e.record.1[i]? = some s) (h' : e.record.1[i + 1]? = some s') :
    (s.residual e).step? = some (.ok (s'.residual e)) := by
  obtain ⟨f, v, hf, heval⟩ := exists_eval_of_record_succ h'
  rw [residual_of_record h, residual_of_record h', step?_reduced (attains_of_record h) hf, heval]
  rfl

end Expr

namespace Replay

variable {e : Expr} {limit : Nat}

/-- A run that keeps all snapshots ends at the last. -/
theorem exists_snapshot?_run {n : Nat} (hlength : e.record.1.length = n + 1)
    (hkept : (ofExpr e limit).run.2.history.snapshots.toList = e.record.1) :
    ∃ s, (ofExpr e limit).run.2.snapshot? = some s ∧ e.record.1[n]? = some s := by
  obtain ⟨-, -, hposition⟩ := run_ofExpr e limit
  have htotal : (ofExpr e limit).run.2.total = n + 1 := by
    rw [total, History.length, ← Array.length_toList, hkept, hlength]
  have hlt : n < e.record.1.length := by omega
  refine ⟨e.record.1[n], ?_, List.getElem?_eq_getElem hlt⟩
  calc
    (ofExpr e limit).run.2.snapshot? = (ofExpr e limit).run.2.history.get? n := by
      rw [snapshot?, hposition, htotal, Nat.add_sub_cancel]
    _ = (ofExpr e limit).run.2.history.snapshots.toList[n]? := Array.getElem?_toList.symm
    _ = e.record.1[n]? := by rw [hkept]
    _ = some e.record.1[n] := List.getElem?_eq_getElem hlt

/-- A run that comes to a value has reduced every operator. -/
theorem exists_residual_eq_literal {v : Value} (hrun : (ofExpr e limit).run.1 = .ok v) :
    ∃ s l width, (ofExpr e limit).run.2.snapshot? = some s ∧ s.residual e = .literal v l width := by
  rcases run_cases e limit with ⟨houtcome, hkept⟩ | ⟨used, j, hstopped, -⟩
  · have heval : e.eval = .ok v := houtcome.symm.trans hrun
    obtain ⟨n, hlength, hcounts⟩ := e.exists_length_record
    rw [heval] at hcounts
    obtain rfl : n = e.operations := hcounts
    obtain ⟨s, hlast, hs⟩ := exists_snapshot?_run hlength hkept
    obtain ⟨l, width, hliteral⟩ := Expr.exists_reduced_eq_literal heval
    refine ⟨s, l, width, hlast, ?_⟩
    rw [Expr.residual_of_record hs, hliteral _ (Nat.le_refl _)]
  · rw [hstopped] at hrun
    cases hrun

/-- A run that fails in an operator has reduced all operators before it. Only such errors
have a place in the text. -/
theorem exists_step?_residual_eq_error {err : EvalError} {l : Location}
    (hrun : (ofExpr e limit).run.1 = .error err) (hplace : err.location? = some l) :
    ∃ s, (ofExpr e limit).run.2.snapshot? = some s ∧
      (s.residual e).step? = some (.error err) := by
  rcases run_cases e limit with ⟨houtcome, hkept⟩ | ⟨used, j, hstopped, -⟩
  · have heval : e.eval = .error err := houtcome.symm.trans hrun
    obtain ⟨n, hlength, hcounts⟩ := e.exists_length_record
    rw [heval] at hcounts
    obtain ⟨before, hfails, rfl⟩ := hcounts
    obtain ⟨f, hf, hfail⟩ := hfails.exists_getElem?
    obtain ⟨s, hlast, hs⟩ := exists_snapshot?_run hlength hkept
    refine ⟨s, hlast, ?_⟩
    rw [Expr.residual_of_record hs, Expr.step?_reduced (Expr.attains_of_record hs) hf, hfail]
    rfl
  · obtain rfl := Except.error.inj (hstopped.symm.trans hrun)
    cases hplace

/-- The history of a run is an evaluation in small steps: it starts with the whole
expression, each snapshot is one step on from the one before, and the meaning never
changes. It ends with the value, or at the step that fails. -/
theorem history_is_small_step (e : Expr) (limit : Nat) :
    (∀ s, (ofExpr e limit).run.2.history.get? 0 = some s → s.residual e = e) ∧
      (∀ i s s', (ofExpr e limit).run.2.history.get? i = some s →
        (ofExpr e limit).run.2.history.get? (i + 1) = some s' →
        (s.residual e).step? = some (.ok (s'.residual e))) ∧
      (∀ i s, (ofExpr e limit).run.2.history.get? i = some s → (s.residual e).eval = e.eval) ∧
      (∀ v, (ofExpr e limit).run.1 = .ok v →
        ∃ s l width, (ofExpr e limit).run.2.snapshot? = some s ∧
          s.residual e = .literal v l width) ∧
      ∀ err l, (ofExpr e limit).run.1 = .error err → err.location? = some l →
        ∃ s, (ofExpr e limit).run.2.snapshot? = some s ∧
          (s.residual e).step? = some (.error err) := by
  refine ⟨?_, ?_, ?_, fun v hv => exists_residual_eq_literal hv,
    fun err l herr hplace => exists_step?_residual_eq_error herr hplace⟩
  · intro s hs
    rw [Expr.residual_of_record (getElem?_record_of_get?_run hs), Expr.reduced_zero]
  · intro i s s' hs hs'
    exact Expr.step?_residual (getElem?_record_of_get?_run hs) (getElem?_record_of_get?_run hs')
  · intro i s hs
    rw [Expr.residual_of_record (getElem?_record_of_get?_run hs), Expr.eval_reduced]

/-- `8 / (2 - 2)` makes one step, to `8 / 0`, and fails at the next. -/
theorem history_is_small_step_vanishingDivisor :
    ∃ s s', (ofExpr vanishingDivisor 240).run.2.history.get? 0 = some s ∧
      (ofExpr vanishingDivisor 240).run.2.history.get? 1 = some s' ∧
      s.residual vanishingDivisor = vanishingDivisor ∧
      (s.residual vanishingDivisor).step? = some (.ok (s'.residual vanishingDivisor)) ∧
      (s'.residual vanishingDivisor).step? = some (.error (.divisionByZero .start)) := by
  have hfirst : ((ofExpr vanishingDivisor 240).run.2.history.get? 0).isSome = true := by
    decide +kernel
  have hposition : (ofExpr vanishingDivisor 240).run.2.position = 1 := by decide +kernel
  have hrun : (ofExpr vanishingDivisor 240).run.1 = .error (.divisionByZero .start) := rfl
  obtain ⟨hwhole, hstep, -, -, hfails⟩ := history_is_small_step vanishingDivisor 240
  obtain ⟨s, hs⟩ := Option.isSome_iff_exists.1 hfirst
  obtain ⟨s', hs', hfail⟩ := hfails _ .start hrun rfl
  rw [snapshot?, hposition] at hs'
  exact ⟨s, s', hs, hs', hwhole s hs, hstep 0 s s' hs hs', hfail⟩

end Replay

end StepCalc
