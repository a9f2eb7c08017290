import StepCalc.Proofs.History.Snapshots

/-!
# The outermost reduced operators

A replay that stands at snapshot `i` of a run has reduced the first `i` operators in the
order of evaluation. All of them have their values in `Replay.values`; the snapshot has
those with no reduced operator above them. Since operators are reduced after those below
them, it is enough to look one level up: a reduced node is outermost if its own operator
is not reduced.
-/

namespace StepCalc

namespace Expr

/-- The numbers of the first `i` operators in the order of evaluation. -/
def reducedNumbers (e : Expr) (i : Nat) : List Nat :=
  e.operatorNumbers.take i

/-- Node `n` has the value `v`. -/
def ValueAt (e : Expr) (n : Nat) (v : Value) : Prop :=
  ∃ entry, e.outline[n]? = some entry ∧ entry.node.eval = .ok v

variable {e f : Expr} {i m n p : Nat} {v w : Value}

theorem mem_reducedNumbers_iff :
    n ∈ e.reducedNumbers i ↔ ∃ f, (n, f) ∈ (e.operatorsFrom 0).take i := by
  rw [reducedNumbers, operatorNumbers_eq, ← List.map_take, List.mem_map]
  constructor
  · rintro ⟨⟨_, f⟩, hf, rfl⟩
    exact ⟨f, hf⟩
  · rintro ⟨f, hf⟩
    exact ⟨_, hf, rfl⟩

theorem nodeAt_of_mem_take (h : (n, f) ∈ (e.operatorsFrom 0).take i) : e.NodeAt 0 n f :=
  (mem_operatorsFrom_iff.1 (List.mem_of_mem_take h)).1

theorem outermostIn_take_iff :
    OutermostIn ((e.operatorsFrom 0).take i) n ↔
      n ∈ e.reducedNumbers i ∧ ∀ m ∈ e.reducedNumbers i, ¬ e.Above m n := by
  rw [OutermostIn, ← mem_reducedNumbers_iff]
  refine and_congr_right fun _ => ?_
  constructor
  · intro h m hm habove
    obtain ⟨g, hg⟩ := mem_reducedNumbers_iff.1 hm
    obtain ⟨g', hg', hrange⟩ := above_iff.1 habove
    obtain rfl := hg'.unique (nodeAt_of_mem_take hg)
    exact h m g' hg hrange
  · intro h m g hg hrange
    exact h m (mem_reducedNumbers_iff.2 ⟨g, hg⟩) (above_iff.2 ⟨g, nodeAt_of_mem_take hg, hrange⟩)

/-- What lies between a reduced operator and a node below it is reduced too. -/
theorem mem_reducedNumbers_of_above (hm : m ∈ e.reducedNumbers i) (habove : e.Above m p)
    (hp : e.IsOperand p n) : p ∈ e.reducedNumbers i := by
  obtain ⟨f, hf⟩ := mem_reducedNumbers_iff.1 hm
  obtain ⟨f', hf', hlt, hrange⟩ := above_iff.1 habove
  obtain rfl := hf'.unique (nodeAt_of_mem_take hf)
  obtain ⟨op, left, right, l, hnode, -⟩ := isOperand_iff.1 hp
  have hoperator := mem_operatorsFrom_iff.2 ⟨hnode, op, left, right, l, rfl⟩
  exact mem_reducedNumbers_iff.2 ⟨_, mem_take_of_below hf hoperator hlt hrange⟩

theorem forall_not_above_iff :
    (∀ m ∈ e.reducedNumbers i, ¬ e.Above m n) ↔
      ∀ p, e.IsOperand p n → p ∉ e.reducedNumbers i := by
  constructor
  · intro h p hp hmem
    exact h p hmem (.single hp)
  · intro h m hm habove
    cases habove with
    | single hp => exact h m hp hm
    | tail habove hp => exact h _ hp (mem_reducedNumbers_of_above hm habove hp)

theorem valueAt_iff : e.ValueAt n v ↔ ∃ f, e.NodeAt 0 n f ∧ f.eval = .ok v := by
  constructor
  · rintro ⟨⟨f, d⟩, hentry, heval⟩
    exact ⟨f, nodeAt_iff_outline.2 ⟨d, hentry⟩, heval⟩
  · rintro ⟨f, hf, heval⟩
    obtain ⟨d, hentry⟩ := nodeAt_iff_outline.1 hf
    exact ⟨⟨f, d⟩, hentry, heval⟩

theorem ValueAt.unique (h : e.ValueAt n v) (h' : e.ValueAt n w) : v = w := by
  obtain ⟨entry, hentry, heval⟩ := h
  obtain ⟨entry', hentry', heval'⟩ := h'
  obtain rfl := Option.some.inj (hentry.symm.trans hentry')
  exact Except.ok.inj (heval.symm.trans heval')

end Expr

namespace Resolved

variable {values : Resolved} {n : Nat} {v : Value}

/-- All values are those of their nodes. -/
def Holds (values : Resolved) (e : Expr) : Prop :=
  ∀ n v, values[n]? = some v → e.ValueAt n v

theorem Holds.getElem?_eq {e : Expr} (h : values.Holds e) (hmem : n ∈ values)
    (hv : e.ValueAt n v) : values[n]? = some v := by
  obtain ⟨w, hw⟩ := Option.isSome_iff_exists.1 (Std.TreeMap.mem_iff_isSome_getElem?.1 hmem)
  rw [hw, (h n w hw).unique hv]

theorem mem_of_getElem? (h : values[n]? = some v) : n ∈ values :=
  Std.TreeMap.mem_iff_isSome_getElem?.2 (by rw [h]; rfl)

/-- The values after the given reductions. -/
def after (values : Resolved) (rs : List Reduction) : Resolved :=
  rs.foldl (fun values r => values.insert r.node r.value) values

theorem mem_after_iff {rs : List Reduction} :
    n ∈ values.after rs ↔ n ∈ values ∨ ∃ r ∈ rs, r.node = n := by
  induction rs generalizing values with
  | nil => simp [after]
  | cons r rs ih =>
      rw [after, List.foldl_cons, ← after, ih]
      simp [Std.TreeMap.mem_insert, or_assoc, or_left_comm]

theorem getElem?_after {rs : List Reduction} (h : (values.after rs)[n]? = some v) :
    values[n]? = some v ∨ ∃ r ∈ rs, r.node = n ∧ r.value = v := by
  induction rs generalizing values with
  | nil => exact .inl h
  | cons r rs ih =>
      rw [after, List.foldl_cons, ← after] at h
      rcases ih h with h | ⟨r', hr', heq⟩
      · rw [Std.TreeMap.getElem?_insert] at h
        split at h
        · rename_i hnode
          have hnode : r.node = n := by simpa using hnode
          exact .inr ⟨r, List.mem_cons_self, hnode, Option.some.inj h⟩
        · exact .inl h
      · exact .inr ⟨r', List.mem_cons_of_mem r hr', heq⟩

end Resolved

namespace Expr

variable {e : Expr} {i n : Nat} {s : Snapshot} {r : Reduction}

/-- The reductions shown by the snapshots up to number `i`. -/
def reductionsTo (e : Expr) (i : Nat) : List Reduction :=
  (e.record.1.take (i + 1)).filterMap (·.reduction)

/-- The snapshots up to number `i` show reductions of the first `i` operators. -/
theorem mem_reductionsTo (h : r ∈ e.reductionsTo i) :
    ∃ f, (r.node, f) ∈ (e.operatorsFrom 0).take i ∧ f.ReducedBy r := by
  obtain ⟨s, hs, hr⟩ := List.mem_filterMap.1 h
  obtain ⟨k, hk, rfl⟩ := List.mem_take_iff_getElem.1 hs
  have hget : e.record.1[k]? = some e.record.1[k] := List.getElem?_eq_getElem (by omega)
  cases k with
  | zero => rw [reduction_of_record_zero hget] at hr; cases hr
  | succ k =>
      obtain ⟨r', f, hr', hf, hreduced⟩ := reduction_of_record_succ hget
      obtain rfl := Option.some.inj (hr.symm.trans hr')
      refine ⟨f, List.mem_of_getElem? (i := k) ?_, hreduced⟩
      rw [List.getElem?_take_of_lt (by omega), hf]

theorem exists_mem_reductionsTo (h : e.record.1[i]? = some s) (hn : n ∈ e.reducedNumbers i) :
    ∃ r ∈ e.reductionsTo i, r.node = n := by
  obtain ⟨f, hf⟩ := mem_reducedNumbers_iff.1 hn
  obtain ⟨k, hk, hget⟩ := List.mem_take_iff_getElem.1 hf
  have hlength := (List.getElem?_eq_some_iff.1 h).1
  have hlt : k + 1 < e.record.1.length := by omega
  obtain ⟨r, g, hr, hg, -⟩ := reduction_of_record_succ (List.getElem?_eq_getElem hlt)
  refine ⟨r, List.mem_filterMap.2 ⟨_, List.mem_take_iff_getElem.2 ⟨k + 1, by omega, rfl⟩, hr⟩, ?_⟩
  have hnode := (List.getElem?_eq_some_iff.1 hg).2
  exact (Prod.mk.inj (hnode.symm.trans hget)).1

end Expr

/-- The snapshot has just the outermost of the first `i` operators, with their values, and
shows the reduction of the last of these operators. -/
structure Snapshot.ShowsOutermost (s : Snapshot) (e : Expr) (i : Nat) : Prop where
  mem_iff : ∀ n, n ∈ s.resolved ↔
    n ∈ e.reducedNumbers i ∧ ∀ m ∈ e.reducedNumbers i, ¬ e.Above m n
  holds : s.resolved.Holds e
  reduction_zero : i = 0 → s.reduction = none
  reduction_succ : ∀ k, i = k + 1 → ∃ r entry, s.reduction = some r ∧
    e.operatorNumbers[k]? = some r.node ∧ e.outline[r.node]? = some entry ∧
    entry.node.ReducedBy r

theorem Expr.showsOutermost_of_record {e : Expr} {i : Nat} {s : Snapshot}
    (h : e.record.1[i]? = some s) : s.ShowsOutermost e i := by
  constructor
  · intro n
    rw [← outermostIn_take_iff, ← mem_outermost_iff (attains_of_record h),
      Std.TreeMap.mem_iff_isSome_getElem?, Option.isSome_iff_exists]
    exact exists_congr fun v => resolved_of_record h n v
  · intro n v hv
    exact valueAt_iff.2 (nodeAt_of_mem_outermost ((resolved_of_record h n v).1 hv))
  · rintro rfl
    exact reduction_of_record_zero h
  · rintro k rfl
    obtain ⟨r, f, hr, hf, hreduced⟩ := reduction_of_record_succ h
    have hnode := (mem_operatorsFrom_iff.1 (List.mem_of_getElem? hf)).1
    obtain ⟨d, hentry⟩ := nodeAt_iff_outline.1 hnode
    refine ⟨r, ⟨f, d⟩, hr, ?_, hentry, hreduced⟩
    rw [operatorNumbers_eq, List.getElem?_map, hf]
    rfl

namespace Replay

variable {e : Expr} {limit : Nat} {r : Replay} {s : Snapshot}

theorem values_eq (hr : r.history = (ofExpr e limit).run.2.history)
    (hs : r.snapshot? = some s) : r.values = Resolved.after ∅ (e.reductionsTo r.position) := by
  rw [snapshot?, hr] at hs
  rw [values, reductions, hr, upTo_run hs]
  rfl

theorem mem_values_iff (hr : r.history = (ofExpr e limit).run.2.history)
    (hs : r.snapshot? = some s) (n : Nat) : n ∈ r.values ↔ n ∈ e.reducedNumbers r.position := by
  rw [values_eq hr hs, Resolved.mem_after_iff]
  constructor
  · rintro (hempty | ⟨red, hred, rfl⟩)
    · simp at hempty
    · obtain ⟨f, hf, -⟩ := Expr.mem_reductionsTo hred
      exact Expr.mem_reducedNumbers_iff.2 ⟨f, hf⟩
  · intro hn
    rw [snapshot?, hr] at hs
    exact .inr (Expr.exists_mem_reductionsTo (getElem?_record_of_get?_run hs) hn)

theorem holds_values (hr : r.history = (ofExpr e limit).run.2.history)
    (hs : r.snapshot? = some s) : r.values.Holds e := by
  intro n v hv
  rw [values_eq hr hs] at hv
  rcases Resolved.getElem?_after hv with hempty | ⟨red, hred, rfl, rfl⟩
  · simp at hempty
  · obtain ⟨f, hf, hreduced⟩ := Expr.mem_reductionsTo hred
    exact Expr.valueAt_iff.2 ⟨f, Expr.nodeAt_of_mem_take hf, hreduced.eval_eq⟩

/-- A replay that stands at a snapshot of a run knows the values of just the operators
reduced so far. The snapshot has those of them that are outermost, that is, whose own
operator is not reduced. -/
theorem snapshot_shows_outermost (hr : r.history = (ofExpr e limit).run.2.history)
    (hs : r.snapshot? = some s) :
    s.ShowsOutermost e r.position ∧
      (∀ n, n ∈ r.values ↔ n ∈ e.reducedNumbers r.position) ∧ r.values.Holds e ∧
      ∀ n v, s.resolved[n]? = some v ↔
        r.values[n]? = some v ∧ ∀ p, e.IsOperand p n → p ∉ r.values := by
  have hmem := mem_values_iff hr hs
  have hvalues := holds_values hr hs
  have hshows : s.ShowsOutermost e r.position := by
    rw [snapshot?, hr] at hs
    exact Expr.showsOutermost_of_record (getElem?_record_of_get?_run hs)
  refine ⟨hshows, hmem, hvalues, fun n v => ?_⟩
  have houtermost : n ∈ s.resolved ↔ n ∈ r.values ∧ ∀ p, e.IsOperand p n → p ∉ r.values := by
    rw [hshows.mem_iff, Expr.forall_not_above_iff, hmem]
    simp only [hmem]
  constructor
  · intro hv
    obtain ⟨hn, hparent⟩ := houtermost.1 (Resolved.mem_of_getElem? hv)
    exact ⟨hvalues.getElem?_eq hn (hshows.holds n v hv), hparent⟩
  · rintro ⟨hv, hparent⟩
    have hn := houtermost.2 ⟨Resolved.mem_of_getElem? hv, hparent⟩
    exact hshows.holds.getElem?_eq hn (hvalues n v hv)

/-- `(2 * 3 + 4) / 0`, where the sum takes in the product before the division fails. -/
def nestedProduct : Expr :=
  .binary .div
    (.binary .add (.binary .mul (.literal 2 .start 1) (.literal 3 .start 1) .start)
      (.literal 4 .start 1) .start)
    (.literal 0 .start 1) .start

/-- At the last snapshot the product is reduced, and its operator too. -/
theorem snapshot_shows_outermost_nestedProduct :
    ∃ s, (ofExpr nestedProduct 368).run.2.snapshot? = some s ∧ s.ShowsOutermost nestedProduct 2 ∧
      (∀ n, n ∈ (ofExpr nestedProduct 368).run.2.values ↔ n ∈ [2, 1]) ∧
      ∀ n v, s.resolved[n]? = some v ↔
        (ofExpr nestedProduct 368).run.2.values[n]? = some v ∧
          ∀ p, nestedProduct.IsOperand p n → p ∉ (ofExpr nestedProduct 368).run.2.values := by
  have hsome : (ofExpr nestedProduct 368).run.2.snapshot?.isSome = true := by decide +kernel
  have hposition : (ofExpr nestedProduct 368).run.2.position = 2 := by decide +kernel
  have hreduced : nestedProduct.reducedNumbers 2 = [2, 1] := by decide +kernel
  obtain ⟨s, hs⟩ := Option.isSome_iff_exists.1 hsome
  obtain ⟨hshows, hmem, -, hrestricts⟩ := snapshot_shows_outermost rfl hs
  rw [hposition] at hshows hmem
  rw [hreduced] at hmem
  exact ⟨s, hs, hshows, hmem, hrestricts⟩

end Replay

end StepCalc
