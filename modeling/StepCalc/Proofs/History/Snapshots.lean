import StepCalc.Proofs.Expr.Progress
import StepCalc.Proofs.History.Budget

/-!
# What a snapshot shows

Recording an expression goes through its operators in the order of evaluation. The
snapshot after reduction number `k` of a subexpression adds to the values known before
those of its outermost operators among the first `k + 1`, and names the operator
reduced last. For a whole expression nothing is known before, so snapshot `i` has
just the outermost of the first `i` operators. A run under a memory limit keeps some of
these snapshots, from the first on.
-/

namespace StepCalc

/-- `values` holds what `base` does, and the values listed in `added`. -/
def Resolved.Adds (base : Resolved) (added : List (Nat × Value)) (values : Resolved) : Prop :=
  ∀ i v, values[i]? = some v ↔ base[i]? = some v ∨ (i, v) ∈ added

namespace Resolved.Adds

variable {base mid values : Resolved} {xs ys : List (Nat × Value)}

theorem trans (h : base.Adds xs mid) (h' : mid.Adds ys values) : base.Adds (xs ++ ys) values := by
  intro i v
  rw [h' i v, h i v, List.mem_append, or_assoc]

/-- Replacing the values of two operands by that of their operator. -/
theorem replace {n m : Nat} {a b v : Value} (h : base.Adds xs values)
    (hbase : ∀ i w, base[i]? = some w → i < n) (hm : n < m)
    (hxs : ∀ p ∈ xs, p = (n + 1, a) ∨ p = (m, b)) :
    base.Adds [(n, v)] (((values.erase (n + 1)).erase m).insert n v) := by
  intro i w
  have hbelow := hbase i w
  rw [Std.TreeMap.getElem?_insert, List.mem_singleton, Prod.mk.injEq]
  by_cases hn : n = i
  · have hnone : ¬ base[i]? = some w := fun hi => by
      have := hbelow hi
      omega
    simp [hn, hnone, eq_comm]
  · have hroot : ¬ (i = n ∧ w = v) := fun hi => hn hi.1.symm
    rw [if_neg (by simpa using hn), Std.TreeMap.getElem?_erase, Std.TreeMap.getElem?_erase]
    by_cases hchild : m = i ∨ n + 1 = i
    · have hnone : ¬ base[i]? = some w := fun hi => by
        have := hbelow hi
        omega
      rcases hchild with rfl | rfl <;> simp [hnone, hroot]
    · obtain ⟨hm', hl⟩ := not_or.1 hchild
      have hnone : ¬ (i, w) ∈ xs := fun hi => by
        rcases hxs _ hi with heq | heq
        · exact hl (Prod.mk.inj heq).1.symm
        · exact hm' (Prod.mk.inj heq).1.symm
      simp [hm', hl, hroot, h i w, hnone]

end Resolved.Adds

/-- The reduction `r` replaces the operator at the root of the expression. -/
def Expr.ReducedBy (f : Expr) (r : Reduction) : Prop :=
  ∃ left right, f = .binary r.op left right r.location ∧ left.eval = .ok r.left ∧
    right.eval = .ok r.right ∧ r.op.apply r.left r.right r.location = .ok r.value ∧
    r.span = f.span

theorem Expr.ReducedBy.eval_eq {f : Expr} {r : Reduction} (h : f.ReducedBy r) :
    f.eval = .ok r.value := by
  obtain ⟨left, right, rfl, hleft, hright, happly, -⟩ := h
  exact Expr.eval_binary_eq_ok_iff.2 ⟨_, _, hleft, hright, happly⟩

/-- The snapshot taken after reduction number `k` of `e`, whose root is node `n`, if the
values in `base` were known before. -/
structure Snapshot.After (s : Snapshot) (base : Resolved) (e : Expr) (n k : Nat) : Prop where
  resolved : base.Adds (e.outermost (k + 1) n) s.resolved
  reduction : ∃ r f, s.reduction = some r ∧ (e.operatorsFrom n)[k]? = some (r.node, f) ∧
    f.ReducedBy r

namespace Snapshot.After

variable {s : Snapshot} {base mid : Resolved} {left right : Expr} {op : Op} {l : Location}
  {a : Value} {n k : Nat}

theorem ofLeft (h : s.After base left (n + 1) k) (hk : k < left.operations) :
    s.After base (.binary op left right l) n k := by
  obtain ⟨r, f, hr, hf, hreduced⟩ := h.reduction
  constructor
  · have hlt : k + 1 < (Expr.binary op left right l).operations := by
      simp only [Expr.operations]
      omega
    rw [Expr.outermost_of_lt hlt, Nat.sub_eq_zero_of_le hk, Expr.outermost_zero, List.append_nil]
    exact h.resolved
  · refine ⟨r, f, hr, ?_, hreduced⟩
    rw [Expr.operatorsFrom, List.append_assoc, List.getElem?_append_left (by simpa using hk), hf]

theorem ofRight (hleft : left.eval = .ok a)
    (hmid : base.Adds (left.outermost left.operations (n + 1)) mid)
    (h : s.After mid right (n + 1 + left.size) k) (hk : k < right.operations) :
    s.After base (.binary op left right l) n (left.operations + k) := by
  obtain ⟨r, f, hr, hf, hreduced⟩ := h.reduction
  constructor
  · have hlt : left.operations + k + 1 < (Expr.binary op left right l).operations := by
      simp only [Expr.operations]
      omega
    have hk' : left.operations + k + 1 - left.operations = k + 1 := by omega
    rw [Expr.outermost_of_lt hlt, Expr.outermost_of_le hleft (by omega), hk']
    exact hmid.trans h.resolved
  · refine ⟨r, f, hr, ?_, hreduced⟩
    rw [Expr.operatorsFrom, List.append_assoc, List.getElem?_append_right (by simp),
      Expr.length_operatorsFrom, Nat.add_sub_cancel_left,
      List.getElem?_append_left (by simpa using hk), hf]

theorem ofRoot {r : Reduction} (hnode : r.node = n)
    (hr : (Expr.binary op left right l).ReducedBy r) (hresolved : base.Adds [(n, r.value)] mid) :
    After ⟨mid, some r⟩ base (.binary op left right l) n (left.operations + right.operations) := by
  constructor
  · have hk : (Expr.binary op left right l).operations ≤
        left.operations + right.operations + 1 := Nat.le_refl _
    rw [Expr.outermost_of_eval hr.eval_eq hk]
    exact hresolved
  · refine ⟨r, _, rfl, ?_, hr⟩
    rw [Expr.operatorsFrom, List.getElem?_append_right (by simp), hnode]
    simp

end Snapshot.After

namespace Tape

/-- Beside the snapshots of `t` there are those in `added`, the first taken after the first
reduction of `e` and so on. -/
structure Gains (t : Tape) (e : Expr) (added : List Snapshot) (t' : Tape) : Prop where
  snapshots : t'.snapshots.toList = t.snapshots.toList ++ added
  length_le : added.length ≤ e.operations
  after : ∀ (k : Nat) (s : Snapshot), added[k]? = some s → s.After t.resolved e t.next k

/-- There is a snapshot for every operator of `e`, and `e` has been gone through. -/
structure Completes (t : Tape) (e : Expr) (added : List Snapshot) (t' : Tape) : Prop
    extends t.Gains e added t' where
  length_eq : added.length = e.operations
  next_eq : t'.next = t.next + e.size
  resolved : t.resolved.Adds (e.outermost e.operations t.next) t'.resolved

/-- Only nodes before the next one have values. -/
def Bounded (t : Tape) : Prop :=
  ∀ i v, t.resolved[i]? = some v → i < t.next

variable {t t' t'' : Tape} {e left right : Expr} {op : Op} {l : Location} {a b : Value}
  {added added' : List Snapshot}

theorem Completes.bounded (h : t.Completes e added t') (ht : t.Bounded) : t'.Bounded := by
  intro i v hi
  rw [h.next_eq]
  rcases (h.resolved i v).1 hi with hi | hi
  · have := ht i v hi
    omega
  · exact (Expr.bounds_of_mem_outermost hi).2

theorem Gains.ofLeft (h : t.visit.Gains left added t') :
    t.Gains (.binary op left right l) added t' := by
  refine ⟨h.snapshots, ?_, fun k s hs => (h.after k s hs).ofLeft ?_⟩
  · have := h.length_le
    simp only [Expr.operations]
    omega
  · have := (List.getElem?_eq_some_iff.1 hs).1
    exact Nat.lt_of_lt_of_le this h.length_le

theorem Completes.append (hleft : t.visit.Completes left added t') (heval : left.eval = .ok a)
    (hright : t'.Gains right added' t'') :
    t.Gains (.binary op left right l) (added ++ added') t'' := by
  have hnext : t'.next = t.next + 1 + left.size := hleft.next_eq
  constructor
  · rw [hright.snapshots, hleft.snapshots, List.append_assoc]
    rfl
  · have := hright.length_le
    have := hleft.length_eq
    simp only [Expr.operations, List.length_append]
    omega
  · intro k s hs
    by_cases hk : k < added.length
    · rw [List.getElem?_append_left hk] at hs
      exact (hleft.after k s hs).ofLeft (hleft.length_eq ▸ hk)
    · rw [List.getElem?_append_right (Nat.le_of_not_lt hk)] at hs
      have hlt := (List.getElem?_eq_some_iff.1 hs).1
      have hk' : k = left.operations + (k - added.length) := by
        have := hleft.length_eq
        omega
      rw [hk']
      have hafter := hright.after _ s hs
      rw [hnext] at hafter
      exact hafter.ofRight heval hleft.resolved (Nat.lt_of_lt_of_le hlt hright.length_le)

/-- One more snapshot, for the reduction that comes next. -/
theorem Gains.push {s : Snapshot} (h : t.Gains e added t')
    (hpush : t''.snapshots = t'.snapshots.push s) (hlength : added.length + 1 ≤ e.operations)
    (hs : s.After t.resolved e t.next added.length) : t.Gains e (added ++ [s]) t'' := by
  constructor
  · rw [hpush, Array.toList_push, h.snapshots, List.append_assoc]
  · rwa [List.length_append]
  · intro k s' hk
    by_cases hlt : k < added.length
    · rw [List.getElem?_append_left hlt] at hk
      exact h.after k s' hk
    · have hk' := (List.getElem?_eq_some_iff.1 hk).1
      rw [List.length_append, List.length_singleton] at hk'
      obtain rfl : k = added.length := by omega
      obtain rfl : s = s' := by simpa using hk
      exact hs

/-- After both operands are recorded, their values make way for that of the operator. -/
theorem Completes.resolved_reduce {r : Reduction} (ht : t.Bounded)
    (hleft : t.visit.Completes left added t') (hright : t'.Completes right added' t'')
    (hnode : r.node = t.next) (hleftEval : left.eval = .ok a) (hrightEval : right.eval = .ok b) :
    t.resolved.Adds [(t.next, r.value)] (t''.reduce (t.next + 1) t'.next r).resolved := by
  have hnext : t'.next = t.next + 1 + left.size := hleft.next_eq
  rw [Tape.reduce, hnode]
  apply (hleft.resolved.trans hright.resolved).replace ht (by omega)
  intro p hp
  rcases List.mem_append.1 hp with hp | hp
  · exact .inl (Expr.eq_of_mem_outermost hleftEval (Nat.le_refl _) hp)
  · exact .inr (Expr.eq_of_mem_outermost hrightEval (Nat.le_refl _) hp)

theorem Completes.reduce {r : Reduction} (ht : t.Bounded)
    (hleft : t.visit.Completes left added t') (hright : t'.Completes right added' t'')
    (hnode : r.node = t.next) (hleftEval : left.eval = .ok r.left)
    (hrightEval : right.eval = .ok r.right)
    (happly : r.op.apply r.left r.right r.location = .ok r.value)
    (hspan : r.span = (Expr.binary r.op left right r.location).span) :
    t.Completes (.binary r.op left right r.location)
      (added ++ added' ++ [⟨(t''.reduce (t.next + 1) t'.next r).resolved, some r⟩])
      (t''.reduce (t.next + 1) t'.next r) := by
  have hreduced : (Expr.binary r.op left right r.location).ReducedBy r :=
    ⟨left, right, rfl, hleftEval, hrightEval, happly, hspan⟩
  have hlength : (added ++ added').length = left.operations + right.operations := by
    rw [List.length_append, hleft.length_eq, hright.length_eq]
  have hresolved := hleft.resolved_reduce ht hright hnode hleftEval hrightEval
  constructor
  case toGains =>
    apply (hleft.append hleftEval hright.toGains).push rfl
    · rw [hlength]
      exact Nat.le_refl _
    · rw [hlength]
      exact .ofRoot hnode hreduced hresolved
  case length_eq =>
    rw [List.length_append, hlength]
    rfl
  case next_eq =>
    have hnext : t'.next = t.next + 1 + left.size := hleft.next_eq
    have hnext' : t''.next = t'.next + right.size := hright.next_eq
    simp only [Tape.reduce, Expr.size]
    omega
  case resolved =>
    rw [Expr.outermost_of_eval hreduced.eval_eq (Nat.le_refl _)]
    exact hresolved

/-- What a recording adds, by how it ends. -/
def Leads (t : Tape) (e : Expr) (t' : Tape) : Except EvalError Value → Prop
  | .ok _ => ∃ added, t.Completes e added t'
  | .error _ => ∃ added, t.Gains e added t'

theorem bounded_start : start.Bounded := by
  intro i v hi
  simp [start] at hi

end Tape

theorem Records.leads {e : Expr} {t t' : Tape} {r : Except EvalError Value}
    (h : Records e t t' r) (ht : t.Bounded) : t.Leads e t' r := by
  have hvisit : ∀ {t : Tape}, t.Bounded → t.visit.Bounded :=
    fun ht i v hi => Nat.lt_succ_of_lt (ht i v hi)
  induction h with
  | literal v l width t =>
      refine ⟨[], ⟨⟨by simp, Nat.le_refl _, by simp⟩, rfl, rfl, fun i v => ?_⟩⟩
      simp [Expr.outermost, Tape.visit]
  | leftFails op right l hleft ih =>
      obtain ⟨added, hadded⟩ := ih (hvisit ht)
      exact ⟨added, hadded.ofLeft⟩
  | rightFails op l hleft hright ihl ihr =>
      obtain ⟨added, hadded⟩ := ihl (hvisit ht)
      obtain ⟨added', hadded'⟩ := ihr (hadded.bounded (hvisit ht))
      exact ⟨_, hadded.append hleft.eval_eq hadded'⟩
  | fails hleft hright happly ihl ihr =>
      obtain ⟨added, hadded⟩ := ihl (hvisit ht)
      obtain ⟨added', hadded'⟩ := ihr (hadded.bounded (hvisit ht))
      exact ⟨_, hadded.append hleft.eval_eq hadded'.toGains⟩
  | reduces hleft hright happly ihl ihr =>
      obtain ⟨added, hadded⟩ := ihl (hvisit ht)
      obtain ⟨added', hadded'⟩ := ihr (hadded.bounded (hvisit ht))
      exact ⟨_, hadded.reduce (r := ⟨_, _, _, _, _, _, _⟩) ht hadded' rfl hleft.eval_eq
        hright.eval_eq happly rfl⟩

namespace Expr

variable {e : Expr} {s : Snapshot} {i k : Nat}

theorem exists_record_eq_cons (e : Expr) :
    ∃ added, e.record.1 = ⟨∅, none⟩ :: added ∧
      ∀ (k : Nat) (s : Snapshot), added[k]? = some s → s.After ∅ e 0 k := by
  have hleads := (records_recordOnto e .start).leads Tape.bounded_start
  obtain ⟨added, hadded⟩ : ∃ added, Tape.start.Gains e added (e.recordOnto .start).1 := by
    cases hr : (e.recordOnto .start).2 with
    | error err =>
        rw [hr] at hleads
        exact hleads
    | ok v =>
        rw [hr] at hleads
        obtain ⟨added, hadded⟩ := hleads
        exact ⟨added, hadded.toGains⟩
  exact ⟨added, hadded.snapshots, hadded.after⟩

/-- A snapshot has the values of the outermost operators reduced. -/
theorem resolved_of_record (h : e.record.1[i]? = some s) (n : Nat) (v : Value) :
    s.resolved[n]? = some v ↔ (n, v) ∈ e.outermost i 0 := by
  obtain ⟨added, hrecord, hafter⟩ := e.exists_record_eq_cons
  rw [hrecord] at h
  cases i with
  | zero =>
      obtain rfl := Option.some.inj h
      simp
  | succ k =>
      have := (hafter k s h).resolved n v
      simpa using this

theorem reduction_of_record_zero (h : e.record.1[0]? = some s) : s.reduction = none := by
  obtain ⟨added, hrecord, -⟩ := e.exists_record_eq_cons
  rw [hrecord] at h
  obtain rfl := Option.some.inj h
  rfl

theorem reduction_of_record_succ (h : e.record.1[k + 1]? = some s) :
    ∃ r f, s.reduction = some r ∧ (e.operatorsFrom 0)[k]? = some (r.node, f) ∧ f.ReducedBy r := by
  obtain ⟨added, hrecord, hafter⟩ := e.exists_record_eq_cons
  rw [hrecord] at h
  exact (hafter k s h).reduction

/-- Reduction number `k` has been made only if operator number `k` has a value. -/
theorem exists_eval_of_record_succ (h : e.record.1[k + 1]? = some s) :
    ∃ f v, e.operators[k]? = some f ∧ f.eval = .ok v := by
  obtain ⟨r, f, -, hf, hreduced⟩ := reduction_of_record_succ h
  refine ⟨f, r.value, ?_, hreduced.eval_eq⟩
  rw [← map_snd_operatorsFrom 0, List.getElem?_map, hf]
  rfl

/-- The operators reduced at a snapshot have values. -/
theorem attains_of_record (h : e.record.1[i]? = some s) : e.Attains i := by
  intro f hf
  obtain ⟨k, hk, rfl⟩ := List.mem_take_iff_getElem.1 hf
  have hlength := (List.getElem?_eq_some_iff.1 h).1
  have hlt : k + 1 < e.record.1.length := by omega
  obtain ⟨f, v, hf, heval⟩ := exists_eval_of_record_succ (List.getElem?_eq_getElem hlt)
  rw [(List.getElem?_eq_some_iff.1 hf).2]
  exact ⟨v, heval⟩

end Expr

namespace Replay

/-- A run ends as the evaluation does and keeps all snapshots, or is stopped by the limit
and keeps those before some number. -/
theorem run_cases (e : Expr) (limit : Nat) :
    ((ofExpr e limit).run.1 = e.eval ∧
      (ofExpr e limit).run.2.history.snapshots.toList = e.record.1) ∨
    ∃ used j, (ofExpr e limit).run.1 = .error (.snapshotLimitExceeded used limit) ∧
      (ofExpr e limit).run.2.history.snapshots.toList = e.record.1.take j := by
  obtain ⟨houtcome, hhistory, -⟩ := run_ofExpr e limit
  rw [houtcome, hhistory]
  rcases (History.empty limit).keep_cases (Nat.zero_le _) e.record.1 with
    ⟨-, h', hkeep, hext⟩ | ⟨j, -, h', o, hkeep, hext⟩
  · have hrec : (ofExpr e limit).recorded = (h', e.record.2) := by
      simp [recorded, ofExpr, hkeep]
    rw [hrec]
    exact .inl ⟨e.record_snd, hext.snapshots⟩
  · have hrec : (ofExpr e limit).recorded =
        (h', .error (.snapshotLimitExceeded h'.used h'.limit)) := by
      simp [recorded, ofExpr, hkeep]
    rw [hrec, hext.limit]
    exact .inr ⟨h'.used, j, rfl, hext.snapshots⟩

/-- The snapshots kept up to number `i` are those of the evaluation. -/
theorem upTo_run {e : Expr} {limit i : Nat} {s : Snapshot}
    (h : (ofExpr e limit).run.2.history.get? i = some s) :
    (ofExpr e limit).run.2.history.upTo i = e.record.1.take (i + 1) := by
  rw [History.get?, ← Array.getElem?_toList] at h
  rw [History.upTo]
  rcases run_cases e limit with ⟨-, hkept⟩ | ⟨-, j, -, hkept⟩
  · rw [hkept]
  · rw [hkept] at h ⊢
    have hlt := (List.getElem?_eq_some_iff.1 h).1
    rw [List.length_take] at hlt
    rw [List.take_take, Nat.min_eq_left (by omega)]

theorem getElem?_record_of_get?_run {e : Expr} {limit i : Nat} {s : Snapshot}
    (h : (ofExpr e limit).run.2.history.get? i = some s) : e.record.1[i]? = some s :=
  calc
    e.record.1[i]? = (e.record.1.take (i + 1))[i]? :=
      (List.getElem?_take_of_lt (Nat.lt_succ_self i)).symm
    _ = ((ofExpr e limit).run.2.history.upTo i)[i]? := by rw [upTo_run h]
    _ = (ofExpr e limit).run.2.history.snapshots.toList[i]? :=
      List.getElem?_take_of_lt (Nat.lt_succ_self i)
    _ = (ofExpr e limit).run.2.history.get? i := Array.getElem?_toList
    _ = some s := h

end Replay

end StepCalc
