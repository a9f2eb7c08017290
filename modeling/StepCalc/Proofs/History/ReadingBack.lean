import StepCalc.Proofs.Expr.Bare
import StepCalc.Proofs.Expr.Negative
import StepCalc.Proofs.Expr.Substitution
import StepCalc.Proofs.History.Navigation
import StepCalc.Proofs.History.Residual

/-!
# Reading a replay's text back

At every position a replay shows the text of what is left of its expression. That text is
accepted, and evaluates as the source does, exactly as long as it shows no negative value.
The parentheses around a negative value do not help: no text can begin a group with a sign.
-/

namespace StepCalc

namespace Replay

/-- One of the values shown at the current position is negative. -/
def ShowsNegative (r : Replay) : Prop :=
  ∃ (s : Snapshot) (n : Nat) (v : Value),
    r.snapshot? = some s ∧ s.resolved[n]? = some v ∧ v.toInt < 0

theorem showsNegative_iff {r : Replay} :
    r.ShowsNegative ↔
      (r.snapshot?.any fun s => s.resolved.toList.any fun p => decide (p.2.toInt < 0)) = true := by
  simp [ShowsNegative, Option.any_eq_true, Std.TreeMap.mem_toList_iff_getElem?_eq_some]

instance decidableShowsNegative (r : Replay) : Decidable r.ShowsNegative :=
  decidable_of_iff' _ showsNegative_iff

variable {e : Expr} {limit : Nat} {requests : List Request}

theorem exists_getElem?_record {s : Snapshot}
    (h : ((ofExpr e limit).asked requests).snapshot? = some s) :
    ∃ k : Nat, e.record.1[k]? = some s := by
  obtain ⟨-, hasked⟩ | ⟨-, p, -, hasked⟩ := asked_cases e limit requests
  · rw [hasked] at h
    cases h
  · rw [hasked] at h
    exact ⟨p, getElem?_record_of_get?_run h⟩

/-- After any requests a replay shows its expression after some number of reductions, and
the values of the outermost operators are those it shows. -/
theorem exists_text_asked (e : Expr) (limit : Nat) (requests : List Request) :
    ∃ k, ((ofExpr e limit).asked requests).text = (e.reduced k).text ∧
      (((ofExpr e limit).asked requests).ShowsNegative ↔
        ∃ p ∈ e.outermost k 0, p.2.toInt < 0) := by
  have hexpr := expr_asked e limit requests
  cases hsnapshot : ((ofExpr e limit).asked requests).snapshot? with
  | none =>
      refine ⟨0, ?_, ?_⟩
      · rw [text, hsnapshot, hexpr, Expr.reduced_zero]
      · simp [ShowsNegative, hsnapshot]
  | some s =>
      obtain ⟨k, hk⟩ := exists_getElem?_record hsnapshot
      refine ⟨k, ?_, ?_⟩
      · calc
          ((ofExpr e limit).asked requests).text = e.render s.resolved := by
            rw [text, hsnapshot, hexpr]
            rfl
          _ = (s.residual e).text := (e.text_substitute s.resolved).symm
          _ = (e.reduced k).text := by rw [Expr.residual_of_record hk]
      · simp [ShowsNegative, hsnapshot, Expr.resolved_of_record hk]

/-- Wherever a replay of an expression that was read stands, its text is read back with the
same value or the same failure, unless it shows a negative value. Then it is refused. -/
theorem text_reads_back_unless_negative {source : String} (h : parse source = .ok e)
    (limit : Nat) (requests : List Request) :
    (¬ ((ofExpr e limit).asked requests).ShowsNegative →
      ∃ e', parse ((ofExpr e limit).asked requests).text = .ok e' ∧ e'.EvalsAs e) ∧
      (((ofExpr e limit).asked requests).ShowsNegative →
        ∃ err, parse ((ofExpr e limit).asked requests).text = .error err) := by
  have hspells := spells_of_parse_eq h
  have hnonneg := hspells.derivation.nonnegative hspells.numbers
  obtain ⟨k, htext, hshows⟩ := exists_text_asked e limit requests
  have hreduced := Expr.nonnegative_reduced_iff (k := k) (n := 0) hnonneg
  rw [htext, hshows]
  constructor
  · intro hnone
    have hleft : (e.reduced k).Nonnegative := by
      rw [hreduced]
      intro p hp
      exact Int.not_lt.1 fun hlt => hnone ⟨p, hp, hlt⟩
    obtain ⟨e', hparse, hbare⟩ := hspells.parse_text_reduced hleft
    refine ⟨e', hparse, ?_⟩
    have := Expr.evalsAs_of_bare_eq hbare
    rwa [Expr.EvalsAs, Expr.eval_reduced] at this
  · rintro ⟨p, hp, hlt⟩
    apply Expr.exists_parse_text_eq_error
    rw [hreduced]
    exact fun hall => Int.not_le.2 hlt (hall p hp)

/-- The expression read from `2-5+4`. -/
def dip : Expr :=
  .binary .add
    (.binary .sub (.literal 2 ⟨0, 1, 1⟩ 1) (.literal 5 ⟨2, 1, 3⟩ 1) ⟨1, 1, 2⟩)
    (.literal 4 ⟨4, 1, 5⟩ 1) ⟨3, 1, 4⟩

theorem parse_dip : parse "2-5+4" = .ok dip := by
  have hscan : (Cursor.ofString "2-5+4").scan =
      ⟨[⟨.number ['2'], ⟨0, 1, 1⟩⟩, ⟨.operator .sub, ⟨1, 1, 2⟩⟩, ⟨.number ['5'], ⟨2, 1, 3⟩⟩,
        ⟨.operator .add, ⟨3, 1, 4⟩⟩, ⟨.number ['4'], ⟨4, 1, 5⟩⟩], ⟨5, 1, 6⟩⟩ := by
    decide +kernel
  rw [parse_eq_verdict_advance, hscan]
  rfl

/-- `2-5+4` is read back at the end, but not one step before. -/
theorem text_reads_back_unless_negative_dip :
    ((ofExpr dip 1000).asked [.run]).text = "1" ∧
      (∃ e', parse "1" = .ok e' ∧ e'.EvalsAs dip) ∧
      ((ofExpr dip 1000).asked [.run, .backward]).text = "(-3) + 4" ∧
      ∃ err, parse "(-3) + 4" = .error err := by
  have hend : ((ofExpr dip 1000).asked [.run]).text = "1" := by decide +kernel
  have hbefore : ((ofExpr dip 1000).asked [.run, .backward]).text = "(-3) + 4" := by
    decide +kernel
  refine ⟨hend, ?_, hbefore, ?_⟩
  · rw [← hend]
    exact (text_reads_back_unless_negative parse_dip 1000 [.run]).1 (by decide +kernel)
  · rw [← hbefore]
    exact (text_reads_back_unless_negative parse_dip 1000 [.run, .backward]).2 (by decide +kernel)

/-- `2-5` has a value, and its text at the end is refused for the sign in front of it. -/
theorem text_of_difference_not_read_back :
    ∃ e, parse "2-5" = .ok e ∧ e.eval = .ok (-3) ∧
      ((ofExpr e 1000).asked [.run]).text = "(-3)" ∧
      parse "(-3)" = .error (.unexpectedToken .operand (.operator .sub) ⟨1, 1, 2⟩) := by
  have hscan : (Cursor.ofString "2-5").scan =
      ⟨[⟨.number ['2'], ⟨0, 1, 1⟩⟩, ⟨.operator .sub, ⟨1, 1, 2⟩⟩, ⟨.number ['5'], ⟨2, 1, 3⟩⟩],
        ⟨3, 1, 4⟩⟩ := by
    decide +kernel
  have hscan' : (Cursor.ofString "(-3)").scan =
      ⟨[⟨.openParen, ⟨0, 1, 1⟩⟩, ⟨.operator .sub, ⟨1, 1, 2⟩⟩, ⟨.number ['3'], ⟨2, 1, 3⟩⟩,
        ⟨.closeParen, ⟨3, 1, 4⟩⟩], ⟨4, 1, 5⟩⟩ := by
    decide +kernel
  refine ⟨.binary .sub (.literal 2 ⟨0, 1, 1⟩ 1) (.literal 5 ⟨2, 1, 3⟩ 1) ⟨1, 1, 2⟩, ?_, rfl,
    by decide +kernel, ?_⟩
  · rw [parse_eq_verdict_advance, hscan]
    rfl
  · rw [parse_eq_verdict_advance, hscan']
    rfl

end Replay

end StepCalc
