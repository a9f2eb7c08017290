import StepCalc.Proofs.Expr.RoundTrip
import StepCalc.Proofs.History.Snapshots

/-!
# The memory that a history takes

The values of a snapshot are those that wait for their operators. On the way from the root
to the operator that is reduced next, each turn to a right operand leaves one of them behind.
In a text such turns lead from an expression to a term and from a term to a factor, and only
a group leads back to an expression. So a snapshot has at most two values for each level of
nesting, however long the text is.
-/

namespace StepCalc

/-- The values that may wait outside of all groups in a word of the goal. -/
def Goal.waiting : Goal → Nat
  | factor => 0
  | term => 1
  | expression => 2

namespace Expr

variable {e left right : Expr} {v : Value} {k n b c : Nat}

/-- At no time do more than `b` values wait for their operators. -/
def WaitsWithin (b : Nat) (e : Expr) : Prop :=
  ∀ k n, e.Attains k → (e.outermost k n).length ≤ b

theorem WaitsWithin.mono (h : e.WaitsWithin b) (hle : b ≤ c) : e.WaitsWithin c :=
  fun k n hk => Nat.le_trans (h k n hk) hle

theorem waitsWithin_literal (v : Value) (l : Location) (width : Nat) :
    (literal v l width).WaitsWithin 0 :=
  fun _ _ _ => Nat.le_refl 0

theorem length_outermost_le_one (h : e.eval = .ok v) (hk : e.operations ≤ k) :
    (e.outermost k n).length ≤ 1 := by
  cases e with
  | literal => exact Nat.zero_le 1
  | binary op left right l =>
      rw [outermost_of_eval h hk]
      exact Nat.le_refl 1

/-- While the right operand is evaluated, the left one is a single value. -/
theorem WaitsWithin.binary (hleft : left.WaitsWithin b) (hright : right.WaitsWithin c)
    (op : Op) (l : Location) : (binary op left right l).WaitsWithin (max b (c + 1)) := by
  intro k n hk
  have hb := hleft k (n + 1) (attains_left hk)
  have hc := hright (k - left.operations) (n + 1 + left.size) (attains_right hk)
  by_cases hroot : (Expr.binary op left right l).operations ≤ k
  · obtain ⟨v, hv⟩ := exists_eval_of_attains hk hroot
    have := length_outermost_le_one (n := n) hv hroot
    omega
  · rw [outermost_of_lt (Nat.lt_of_not_le hroot), List.length_append]
    by_cases hturn : left.operations ≤ k
    · obtain ⟨v, hv⟩ := exists_eval_of_attains (attains_left hk) hturn
      have := length_outermost_le_one (n := n + 1) hv hturn
      omega
    · rw [Nat.sub_eq_zero_of_le (Nat.le_of_not_le hturn), outermost_zero, List.length_nil]
      omega

end Expr

/-- Two values wait in each group around a place, and as many outside of all groups as the
goal allows. -/
theorem Derives.waitsWithin {goal : Goal} {ts : List Token} {e : Expr} {d : Nat}
    (h : Derives goal ts e) (hd : nesting (ts.map Token.lexeme) ≤ d) :
    e.WaitsWithin (2 * d + goal.waiting) := by
  induction h using leftRec generalizing d with
  | number digits l => exact (Expr.waitsWithin_literal _ _ _).mono (Nat.zero_le _)
  | @group body e l r inside ih =>
      have hnonneg := nesting_nonneg (body.map Token.lexeme)
      rw [map_lexeme_parenthesized, nesting_group inside.balance_eq_zero, if_pos rfl] at hd
      have hbody : nesting (body.map Token.lexeme) ≤ (d - 1 : Nat) := by omega
      apply (ih hbody).mono
      simp only [Goal.waiting]
      omega
  | ofFactor _ ih | ofTerm _ ih =>
      apply (ih hd).mono
      simp only [Goal.waiting]
      omega
  | product l left _ _ ihl ihr | sum l left _ _ ihl ihr =>
      rw [List.map_append, List.map_cons, nesting_operator left.balance_eq_zero] at hd
      have hleft := ihl (Int.le_trans (Int.le_max_left _ _) hd)
      have hright := ihr (Int.le_trans (Int.le_max_right _ _) hd)
      apply (hleft.binary hright _ l).mono
      simp only [Goal.waiting]
      omega

/-- A map is no larger than a list that has all of its values. -/
theorem size_le_length_of_forall_mem {values : Resolved} {xs : List (Nat × Value)}
    (h : ∀ i v, values[i]? = some v → (i, v) ∈ xs) : values.size ≤ xs.length := by
  have hsubset : values.keys ⊆ xs.map Prod.fst := by
    intro i hi
    obtain ⟨v, hv⟩ := Option.isSome_iff_exists.1
      (Std.TreeMap.mem_iff_isSome_getElem?.1 (Std.TreeMap.mem_keys.1 hi))
    exact List.mem_map_of_mem (f := Prod.fst) (h i v hv)
  calc
    values.size = values.keys.length := Std.TreeMap.length_keys.symm
    _ ≤ (xs.map Prod.fst).length := Std.TreeMap.nodup_keys.length_le_of_subset hsubset
    _ = xs.length := List.length_map _

/-- A snapshot of an expression whose text has `d` groups open at once. -/
structure Snapshot.SmallFor (d : Nat) (s : Snapshot) : Prop where
  entries : s.resolved.size ≤ 2 * d + 2
  size : s.size ≤ 112 + 16 * (2 * d + 2)

/-- No snapshot of an evaluation has more values than wait at that time. -/
theorem Expr.WaitsWithin.smallFor {e : Expr} {d : Nat} (h : e.WaitsWithin (2 * d + 2))
    {s : Snapshot} (hs : s ∈ e.record.1) : s.SmallFor d := by
  obtain ⟨i, hi⟩ := List.mem_iff_getElem?.1 hs
  have hentries : s.resolved.size ≤ 2 * d + 2 :=
    calc
      s.resolved.size ≤ (e.outermost i 0).length :=
        size_le_length_of_forall_mem fun n v => (resolved_of_record hi n v).1
      _ ≤ 2 * d + 2 := h i 0 (attains_of_record hi)
  refine ⟨hentries, ?_⟩
  rw [Snapshot.size]
  omega

theorem bytes_le_length_mul {snapshots : List Snapshot} {b : Nat}
    (h : ∀ s ∈ snapshots, s.size ≤ b) : bytes snapshots ≤ snapshots.length * b := by
  induction snapshots with
  | nil => exact Nat.zero_le _
  | cons s rest ih =>
      have hs := h s List.mem_cons_self
      have hrest := ih fun s hs => h s (List.mem_cons_of_mem _ hs)
      rw [bytes_cons, List.length_cons, Nat.succ_mul]
      omega

theorem History.exists_extends_keep (h : History) (hfit : h.used ≤ h.limit)
    (snapshots : List Snapshot) : ∃ added, h.Extends added (h.keep snapshots).1 := by
  rcases h.keep_cases hfit snapshots with ⟨-, h', hkeep, hext⟩ | ⟨j, -, h', o, hkeep, hext⟩
  · exact ⟨snapshots, by rwa [hkeep]⟩
  · exact ⟨snapshots.take j, by rwa [hkeep]⟩

namespace Replay

/-- A run keeps the snapshots of the evaluation up to some number. -/
theorem exists_kept_eq_take (e : Expr) (limit : Nat) :
    ∃ j, (ofExpr e limit).run.2.history.snapshots.toList = e.record.1.take j := by
  rcases run_cases e limit with ⟨-, hkept⟩ | ⟨-, j, -, hkept⟩
  · exact ⟨e.record.1.length, by rw [hkept, List.take_length]⟩
  · exact ⟨j, hkept⟩

theorem history_run (e : Expr) (limit : Nat) :
    (ofExpr e limit).run.2.history = ((History.empty limit).keep e.record.1).1 := by
  rw [(run_ofExpr e limit).2.1]
  cases hkeep : (History.empty limit).keep e.record.1 with
  | mk h o => cases o <;> simp [recorded, ofExpr, hkeep]

/-- The memory that a run uses is that of the snapshots it keeps. -/
theorem used_run (e : Expr) (limit : Nat) :
    (ofExpr e limit).run.2.history.used =
      bytes (ofExpr e limit).run.2.history.snapshots.toList := by
  obtain ⟨added, hext⟩ :=
    (History.empty limit).exists_extends_keep (Nat.zero_le _) e.record.1
  rw [history_run, hext.used, hext.snapshots]
  exact Nat.zero_add _

/-- All snapshots of a run but the first come with a reduction. -/
theorem total_run_le (e : Expr) (limit : Nat) :
    (ofExpr e limit).run.2.total ≤ (ofExpr e limit).run.2.reductions.length + 1 := by
  obtain ⟨-, -, hposition⟩ := run_ofExpr e limit
  obtain ⟨j, hkept⟩ := exists_kept_eq_take e limit
  obtain ⟨added, hrecord, hafter⟩ := e.exists_record_eq_cons
  have htotal : (ofExpr e limit).run.2.total = (e.record.1.take j).length := by
    rw [total, History.length, ← Array.length_toList, hkept]
  have hall : (ofExpr e limit).run.2.history.upTo (ofExpr e limit).run.2.position =
      e.record.1.take j := by
    rw [History.upTo, hkept, hposition, htotal]
    exact List.take_of_length_le (by omega)
  rw [htotal, reductions, hall, hrecord]
  cases j with
  | zero => exact Nat.zero_le _
  | succ j =>
      have hsome : ∀ s ∈ added.take j, s.reduction.isSome = true := by
        intro s hs
        obtain ⟨k, hk⟩ := List.mem_iff_getElem?.1 (List.mem_of_mem_take hs)
        obtain ⟨r, f, hr, -⟩ := (hafter k s hk).reduction
        rw [hr]
        rfl
      apply Nat.le_of_eq
      rw [List.take_succ_cons, List.filterMap_cons_none rfl, List.length_filterMap_eq_countP,
        List.countP_eq_length.2 hsome, List.length_cons]

/-- The memory of a run is bounded by the nesting of its source and the number of its
reductions. With `d` groups open at once, which is at most 256, no snapshot has more than
`2 * d + 2` values, so the reductions of a long flat source cost a constant amount each. -/
theorem memory_bounded_by_nesting {source : String} {e : Expr} (h : parse source = .ok e)
    (limit : Nat) :
    ∃ d : Nat, textNesting source = d ∧ d ≤ 256 ∧
      (∀ s ∈ e.record.1, s.SmallFor d) ∧
      (∀ i s, (ofExpr e limit).run.2.history.get? i = some s → s.SmallFor d) ∧
      (ofExpr e limit).run.2.history.used ≤
        ((ofExpr e limit).run.2.reductions.length + 1) * (112 + 16 * (2 * d + 2)) := by
  have hspells := spells_of_parse_eq h
  obtain ⟨d, hd⟩ := Int.eq_ofNat_of_zero_le (nesting_nonneg (lexemes source.toList))
  have hlimit : textNesting source ≤ 256 := nestsWithin_tokenize_iff.1 hspells.nesting
  have hwaits : e.WaitsWithin (2 * d + 2) := by
    apply hspells.derivation.waitsWithin
    apply Int.le_of_eq
    rw [map_lexeme_dropLast_tokenize, hd]
  have hkept : ∀ s ∈ (ofExpr e limit).run.2.history.snapshots.toList, s.SmallFor d := by
    obtain ⟨j, hj⟩ := exists_kept_eq_take e limit
    intro s hs
    rw [hj] at hs
    exact hwaits.smallFor (List.mem_of_mem_take hs)
  refine ⟨d, hd, by rw [textNesting, hd] at hlimit; omega, fun s => hwaits.smallFor, ?_, ?_⟩
  · intro i s hs
    exact hwaits.smallFor (List.mem_of_getElem? (getElem?_record_of_get?_run hs))
  · calc
      (ofExpr e limit).run.2.history.used
          = bytes (ofExpr e limit).run.2.history.snapshots.toList := used_run e limit
      _ ≤ (ofExpr e limit).run.2.total * (112 + 16 * (2 * d + 2)) := by
        rw [total, History.length, ← Array.length_toList]
        exact bytes_le_length_mul fun s hs => (hkept s hs).size
      _ ≤ ((ofExpr e limit).run.2.reductions.length + 1) * (112 + 16 * (2 * d + 2)) :=
        Nat.mul_le_mul_right _ (total_run_le e limit)

/-- With one group at most four values wait, and here four do. -/
theorem memory_bounded_by_nesting_group :
    ∃ e, parse "1*2+3*4*(5*6+7*8)" = .ok e ∧ (∃ s ∈ e.record.1, s.resolved.size = 4) ∧
      (∀ s ∈ e.record.1, s.resolved.size ≤ 4) ∧
      (ofExpr e 1000).run.2.history.used ≤
        ((ofExpr e 1000).run.2.reductions.length + 1) * 176 := by
  have hfour : ((parse "1*2+3*4*(5*6+7*8)").toOption.any fun e =>
      e.record.1.any fun s => s.resolved.size == 4) = true := by decide +kernel
  have hgroup : textNesting "1*2+3*4*(5*6+7*8)" = 1 := by decide +kernel
  cases hparse : parse "1*2+3*4*(5*6+7*8)" with
  | error err =>
      rw [hparse] at hfour
      cases hfour
  | ok e =>
      rw [hparse] at hfour
      obtain ⟨s, hs, hsize⟩ := List.any_eq_true.1 hfour
      obtain ⟨d, hd, -, hsmall, -, hused⟩ := memory_bounded_by_nesting hparse 1000
      obtain rfl : d = 1 := by omega
      exact ⟨e, rfl, ⟨s, hs, of_decide_eq_true hsize⟩, fun s hs => (hsmall s hs).entries, hused⟩

end Replay

end StepCalc
