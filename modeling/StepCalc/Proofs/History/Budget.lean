import StepCalc.Proofs.Expr.Operators
import StepCalc.Proofs.History.Reducing

/-!
# Running under a memory limit

A run that is never short of memory takes one snapshot before the first reduction
and one after each, so their number tells how far the evaluation came: through all
operators, or up to the first one in post-order that has no value. A history with a
limit keeps the longest beginning of these snapshots that fits, and the run ends as
the evaluation does exactly if all of them fit. All of this is said of the reducing loop,
which offers each snapshot as soon as it is taken.
-/

namespace StepCalc

namespace Expr

/-- What the number of reductions says: all operators are reduced if the recording
came to a value, and those before the failing one if it came to an error. -/
def Counts (e : Expr) (n : Nat) : Except EvalError Value → Prop
  | .ok _ => n = e.operations
  | .error err => ∃ before, e.FailsAfter before err ∧ n = before.length

end Expr

/-- A recording adds one snapshot for each reduction. -/
theorem Records.exists_size {e : Expr} {t t' : Tape} {r : Except EvalError Value}
    (h : Records e t t' r) :
    ∃ n, t'.snapshots.size = t.snapshots.size + n ∧ e.Counts n r := by
  induction h with
  | literal v l width t => exact ⟨0, rfl, rfl⟩
  | leftFails op right l hleft ih =>
      obtain ⟨n, hsize, before, hfail, hn⟩ := ih
      exact ⟨n, hsize, before, Expr.failsAfter_of_left hfail, hn⟩
  | rightFails op l hleft hright ihl ihr =>
      obtain ⟨_, hi, rfl⟩ := ihl
      obtain ⟨j, hj, before, hfail, rfl⟩ := ihr
      refine ⟨_, ?_, _, Expr.failsAfter_of_right hleft.eval_eq hfail, rfl⟩
      rw [hj, hi, Tape.snapshots_visit, List.length_append, Expr.length_operators, Nat.add_assoc]
  | fails hleft hright happly ihl ihr =>
      obtain ⟨_, hi, rfl⟩ := ihl
      obtain ⟨_, hj, rfl⟩ := ihr
      refine ⟨_, ?_, _, Expr.failsAfter_root hleft.eval_eq hright.eval_eq happly, rfl⟩
      rw [hj, hi, Tape.snapshots_visit, List.length_append, Expr.length_operators,
        Expr.length_operators, Nat.add_assoc]
  | reduces hleft hright happly ihl ihr =>
      obtain ⟨_, hi, rfl⟩ := ihl
      obtain ⟨_, hj, rfl⟩ := ihr
      refine ⟨_, ?_, rfl⟩
      rw [Tape.size_snapshots_reduce, hj, hi, Tape.snapshots_visit, Expr.operations]
      omega

/-- The snapshots of a recording: one before the first reduction and one after each. -/
theorem Expr.exists_length_record (e : Expr) :
    ∃ n, e.record.1.length = n + 1 ∧ e.Counts n e.eval := by
  have hrec := records_recordOnto e .start
  obtain ⟨n, hsize, hcounts⟩ := hrec.exists_size
  refine ⟨n, ?_, ?_⟩
  · change (e.recordOnto .start).1.snapshots.toList.length = n + 1
    rw [Array.length_toList, hsize]
    exact Nat.add_comm 1 n
  · rwa [e.recordOnto_snd] at hcounts

/-- The memory that snapshots are charged for together. -/
def bytes : List Snapshot → Nat
  | [] => 0
  | s :: rest => s.size + bytes rest

@[simp] theorem bytes_nil : bytes [] = 0 := rfl

@[simp] theorem bytes_cons (s : Snapshot) (rest : List Snapshot) :
    bytes (s :: rest) = s.size + bytes rest := rfl

theorem bytes_le_of_sublist {kept snapshots : List Snapshot} (h : kept.Sublist snapshots) :
    bytes kept ≤ bytes snapshots := by
  induction h with
  | slnil => exact Nat.le_refl 0
  | cons s _ ih => exact Nat.le_trans ih (Nat.le_add_left _ s.size)
  | cons_cons s _ ih => exact Nat.add_le_add_left ih s.size

theorem bytes_take_le (snapshots : List Snapshot) (k : Nat) :
    bytes (snapshots.take k) ≤ bytes snapshots :=
  bytes_le_of_sublist (List.take_sublist k snapshots)

/-- Beside `used` bytes the snapshots before number `j` fit and number `j` does not. -/
def FirstExcess (used limit : Nat) (snapshots : List Snapshot) (j : Nat) : Prop :=
  j < snapshots.length ∧ limit < used + bytes (snapshots.take (j + 1)) ∧
    ∀ i < j, used + bytes (snapshots.take (i + 1)) ≤ limit

namespace History

/-- `h'` is `h` with the snapshots `added` kept too. -/
structure Extends (h : History) (added : List Snapshot) (h' : History) : Prop where
  snapshots : h'.snapshots.toList = h.snapshots.toList ++ added
  used : h'.used = h.used + bytes added
  limit : h'.limit = h.limit

theorem extends_nil (h : History) : h.Extends [] h :=
  ⟨by simp, by simp, rfl⟩

theorem Extends.cons {h h' h'' : History} {s : Snapshot} {rest : List Snapshot}
    (hpush : h.push s = .ok h') (hrest : h'.Extends rest h'') : h.Extends (s :: rest) h'' := by
  obtain ⟨-, rfl⟩ := push_eq_ok_iff.1 hpush
  refine ⟨?_, ?_, hrest.limit⟩
  · simpa using hrest.snapshots
  · simpa [Nat.add_assoc] using hrest.used

/-- A history keeps all snapshots, or those before the first that does not fit. -/
theorem keep_cases (h : History) (hfit : h.used ≤ h.limit) (snapshots : List Snapshot) :
    (h.used + bytes snapshots ≤ h.limit ∧
      ∃ h', h.keep snapshots = (h', none) ∧ h.Extends snapshots h') ∨
    ∃ j, FirstExcess h.used h.limit snapshots j ∧
      ∃ h' o, h.keep snapshots = (h', some o) ∧ h.Extends (snapshots.take j) h' := by
  induction snapshots generalizing h with
  | nil => exact .inl ⟨by simpa using hfit, h, rfl, h.extends_nil⟩
  | cons s rest ih =>
      by_cases hs : h.used + s.size ≤ h.limit
      · let next : History :=
          { h with snapshots := h.snapshots.push s, used := h.used + s.size }
        have hpush : h.push s = .ok next := push_eq_ok_iff.2 ⟨hs, rfl⟩
        have hkeep : h.keep (s :: rest) = next.keep rest := by simp [keep, hpush]
        rw [hkeep]
        rcases ih next hs with
          ⟨hall, h', hrest, hext⟩ | ⟨j, ⟨hj, hexcess, hbefore⟩, h', o, hrest, hext⟩
        · refine .inl ⟨?_, h', hrest, .cons hpush hext⟩
          simpa [next, Nat.add_assoc] using hall
        · refine .inr ⟨j + 1, ⟨?_, ?_, ?_⟩, h', o, hrest, .cons hpush hext⟩
          · simpa using hj
          · simpa [next, Nat.add_assoc] using hexcess
          · intro i hi
            cases i with
            | zero => simpa using hs
            | succ i => simpa [next, Nat.add_assoc] using hbefore i (by omega)
      · have hpush : h.push s = .error ⟨h.used, s.size, h.limit⟩ :=
          push_eq_error_iff.2 ⟨Nat.not_le.1 hs, rfl⟩
        refine .inr ⟨0, ⟨by simp, by simpa using hs, by simp⟩, h,
          ⟨h.used, s.size, h.limit⟩, ?_, h.extends_nil⟩
        simp [keep, hpush]

end History

namespace Replay

theorem run_ofExpr (e : Expr) (limit : Nat) :
    (ofExpr e limit).run.1 = (ofExpr e limit).recorded.2 ∧
      (ofExpr e limit).run.2.history = (ofExpr e limit).recorded.1 ∧
      (ofExpr e limit).run.2.position = (ofExpr e limit).run.2.total - 1 :=
  ⟨rfl, rfl, rfl⟩

/-- A run is the reducing loop over the index of the expression. -/
theorem exists_reduceAll?_eq_run (e : Expr) (limit : Nat) :
    ∃ ix, Index.ofExpr? e = some ix ∧ ix.reduceAll? (.empty limit) =
      some ((ofExpr e limit).run.2.history, (ofExpr e limit).run.1) := by
  obtain ⟨ix, hix, htable⟩ := Index.exists_ofExpr? e
  exact ⟨ix, hix, Index.reduceAll?_eq (r := ofExpr e limit) htable⟩

/-- A run under a memory limit evaluates the expression and keeps all of its
snapshots if they fit together. Otherwise it keeps those before the first one that
does not fit and reports the memory they take. It does so in one pass of the reducing
loop. -/
theorem run_refines_eval (e : Expr) (limit : Nat) :
    (bytes e.record.1 ≤ limit →
      (ofExpr e limit).run.1 = e.eval ∧
        (ofExpr e limit).run.2.history.snapshots.toList = e.record.1 ∧
        ∃ m, e.record.1.length = m + 1 ∧ e.Counts m e.eval) ∧
      (limit < bytes e.record.1 → ∃ j, FirstExcess 0 limit e.record.1 j ∧
        (ofExpr e limit).run.1 =
          .error (.snapshotLimitExceeded (bytes (e.record.1.take j)) limit) ∧
        (ofExpr e limit).run.2.history.snapshots.toList = e.record.1.take j) ∧
      (ofExpr e limit).run.2.position = (ofExpr e limit).run.2.total - 1 ∧
      ∃ ix, Index.ofExpr? e = some ix ∧ ix.reduceAll? (.empty limit) =
        some ((ofExpr e limit).run.2.history, (ofExpr e limit).run.1) := by
  obtain ⟨houtcome, hhistory, hposition⟩ := run_ofExpr e limit
  have hloop := exists_reduceAll?_eq_run e limit
  rw [houtcome, hhistory] at hloop ⊢
  rcases (History.empty limit).keep_cases (Nat.zero_le _) e.record.1 with
    ⟨hall, h', hkeep, hext⟩ | ⟨j, hj, h', o, hkeep, hext⟩
  · have hrec : (ofExpr e limit).recorded = (h', e.record.2) := recorded_of_keep_none hkeep
    have hfits : bytes e.record.1 ≤ limit := by simpa [History.empty] using hall
    rw [hrec] at hloop ⊢
    refine ⟨fun _ => ⟨e.record_snd, ?_, e.exists_length_record⟩,
      fun hexcess => absurd hfits (Nat.not_le.2 hexcess), hposition, hloop⟩
    simpa [History.empty] using hext.snapshots
  · have hrec : (ofExpr e limit).recorded =
        (h', .error (.snapshotLimitExceeded h'.used h'.limit)) := recorded_of_keep_some hkeep
    have hused : h'.used = bytes (e.record.1.take j) := by
      simpa [History.empty] using hext.used
    have hlimit : h'.limit = limit := hext.limit
    have hfirst : FirstExcess 0 limit e.record.1 j := hj
    rw [hrec] at hloop ⊢
    refine ⟨fun hfits => absurd hfits ?_, fun _ => ⟨j, hfirst, ?_, ?_⟩, hposition, hloop⟩
    · have hle := bytes_take_le e.record.1 (j + 1)
      have hlt := hfirst.2.1
      omega
    · rw [hused, hlimit]
    · simpa [History.empty] using hext.snapshots

/-- `8 / (2 - 2)`, which has one reduction before it fails. -/
def vanishingDivisor : Expr :=
  .binary .div (.literal 8 .start 1)
    (.binary .sub (.literal 2 .start 1) (.literal 2 .start 1) .start) .start

/-- With room for both snapshots the division fails; with one byte less the second
snapshot does. -/
theorem run_refines_eval_vanishingDivisor :
    (ofExpr vanishingDivisor 240).run.1 = vanishingDivisor.eval ∧
      ∃ j, FirstExcess 0 239 vanishingDivisor.record.1 j ∧
        (ofExpr vanishingDivisor 239).run.1 =
          .error (.snapshotLimitExceeded (bytes (vanishingDivisor.record.1.take j)) 239) := by
  have hbytes : bytes vanishingDivisor.record.1 = 240 := by decide +kernel
  obtain ⟨j, hj, hrun, -⟩ :=
    (run_refines_eval vanishingDivisor 239).2.1 (by rw [hbytes]; decide)
  exact ⟨((run_refines_eval vanishingDivisor 240).1 (Nat.le_of_eq hbytes)).1, j, hj, hrun⟩

end Replay

end StepCalc
