import StepCalc.Expr.Printer
import StepCalc.Proofs.Expr.Numbering

/-!
# Expressions after some reductions

What is left of an expression when its first `k` operators, in the order of
evaluation, have been replaced by their values: `Expr.reduced` is the expression that
remains, and `Expr.outermost` lists the values in it by the numbers of the nodes they
stand for. These are the reduced operators with no reduced operator above them, and
putting their values in place gives the expression that remains.
-/

namespace StepCalc

namespace Expr

/-- The first `k` operators have values. -/
def Attains (e : Expr) (k : Nat) : Prop :=
  ∀ f ∈ e.operators.take k, ∃ v, f.eval = .ok v

/-- The value of `e`, if it has no more than `k` operators. -/
def valueAfter (k : Nat) (e : Expr) : Option Value :=
  if e.operations ≤ k then e.eval.toOption else none

/-- The outermost operators of `e`, whose root is node `n`, among the first `k`, with
their values. -/
def outermost (k n : Nat) : Expr → List (Nat × Value)
  | literal .. => []
  | binary op left right l =>
    match (binary op left right l).valueAfter k with
    | some v => [(n, v)]
    | none => left.outermost k (n + 1) ++ right.outermost (k - left.operations) (n + 1 + left.size)

/-- What `e` has become when its first `k` operators are reduced. A value stands in
the place of its operator. -/
def reduced (k : Nat) : Expr → Expr
  | literal v l width => literal v l width
  | binary op left right l =>
    match (binary op left right l).valueAfter k with
    | some v => literal v l 1
    | none => binary op (left.reduced k) (right.reduced (k - left.operations)) l

/-- The expression `e`, whose root is node `n`, with the given values in the place of
their nodes. -/
def substitute (values : Resolved) (n : Nat) (e : Expr) : Expr :=
  match values[n]? with
  | some v => literal v e.location 1
  | none =>
    match e with
    | literal v l width => literal v l width
    | binary op left right l =>
      binary op (left.substitute values (n + 1)) (right.substitute values (n + 1 + left.size)) l

variable {e f left right : Expr} {op : Op} {l : Location} {v : Value} {n i k : Nat}

theorem valueAfter_of_lt (hk : k < e.operations) : e.valueAfter k = none :=
  if_neg (Nat.not_le.2 hk)

theorem valueAfter_of_eval (h : e.eval = .ok v) (hk : e.operations ≤ k) :
    e.valueAfter k = some v := by
  rw [valueAfter, if_pos hk, h]
  rfl

theorem eval_of_valueAfter (h : e.valueAfter k = some v) : e.eval = .ok v := by
  unfold valueAfter at h
  split at h
  · cases heval : e.eval with
    | error err => rw [heval] at h; cases h
    | ok w =>
        rw [heval] at h
        exact congrArg _ (Option.some.inj h)
  · cases h

theorem outermost_of_lt (hk : k < (binary op left right l).operations) :
    (binary op left right l).outermost k n =
      left.outermost k (n + 1) ++ right.outermost (k - left.operations) (n + 1 + left.size) := by
  rw [outermost, valueAfter_of_lt hk]

theorem outermost_of_eval (h : (binary op left right l).eval = .ok v)
    (hk : (binary op left right l).operations ≤ k) :
    (binary op left right l).outermost k n = [(n, v)] := by
  rw [outermost, valueAfter_of_eval h hk]

theorem reduced_of_lt (hk : k < (binary op left right l).operations) :
    (binary op left right l).reduced k =
      binary op (left.reduced k) (right.reduced (k - left.operations)) l := by
  rw [reduced, valueAfter_of_lt hk]

theorem reduced_of_eval (h : (binary op left right l).eval = .ok v)
    (hk : (binary op left right l).operations ≤ k) :
    (binary op left right l).reduced k = literal v l 1 := by
  rw [reduced, valueAfter_of_eval h hk]

/-- An expression with a value becomes one literal, and stays it. -/
theorem exists_reduced_eq_literal (h : e.eval = .ok v) :
    ∃ l width, ∀ k, e.operations ≤ k → e.reduced k = literal v l width := by
  cases e with
  | literal w l width =>
      refine ⟨l, width, fun k _ => ?_⟩
      rw [reduced, Except.ok.inj h]
  | binary op left right l => exact ⟨l, 1, fun k hk => reduced_of_eval h hk⟩

@[simp] theorem outermost_zero (n : Nat) (e : Expr) : e.outermost 0 n = [] := by
  induction e generalizing n with
  | literal => rfl
  | binary op left right l ihl ihr =>
      rw [outermost_of_lt (Nat.succ_pos _), ihl, Nat.zero_sub, ihr, List.append_nil]

@[simp] theorem reduced_zero (e : Expr) : e.reduced 0 = e := by
  induction e with
  | literal => rfl
  | binary op left right l ihl ihr => rw [reduced_of_lt (Nat.succ_pos _), ihl, Nat.zero_sub, ihr]

/-- Of an expression with a value only the root is outermost. -/
theorem eq_of_mem_outermost (h : e.eval = .ok v) (hk : e.operations ≤ k) {p : Nat × Value}
    (hp : p ∈ e.outermost k n) : p = (n, v) := by
  cases e with
  | literal => simp [outermost] at hp
  | binary op left right l =>
      rw [outermost_of_eval h hk] at hp
      exact List.mem_singleton.1 hp

/-- Operators that are not there change nothing. -/
theorem outermost_of_le (h : e.eval = .ok v) (hk : e.operations ≤ k) :
    e.outermost k n = e.outermost e.operations n := by
  cases e with
  | literal => rfl
  | binary op left right l => rw [outermost_of_eval h hk, outermost_of_eval h (Nat.le_refl _)]

theorem nodeAt_of_mem_outermost (h : (i, v) ∈ e.outermost k n) :
    ∃ f, e.NodeAt n i f ∧ f.eval = .ok v := by
  induction e generalizing n k with
  | literal => simp [outermost] at h
  | binary op left right l ihl ihr =>
      rw [outermost] at h
      split at h
      · rename_i w hw
        obtain ⟨rfl, rfl⟩ := Prod.mk.inj (List.mem_singleton.1 h)
        exact ⟨_, .root _ _, eval_of_valueAfter hw⟩
      · rcases List.mem_append.1 h with h | h
        · obtain ⟨f, hf, heval⟩ := ihl h
          exact ⟨f, .left op right l hf, heval⟩
        · obtain ⟨f, hf, heval⟩ := ihr h
          exact ⟨f, .right op left l hf, heval⟩

theorem bounds_of_mem_outermost (h : (i, v) ∈ e.outermost k n) : n ≤ i ∧ i < n + e.size := by
  obtain ⟨f, hf, -⟩ := nodeAt_of_mem_outermost h
  exact ⟨hf.bounds.1, hf.lt⟩

theorem eval_reduced (k : Nat) (e : Expr) : (e.reduced k).eval = e.eval := by
  induction e generalizing k with
  | literal => rfl
  | binary op left right l ihl ihr =>
      rw [reduced]
      split
      · rename_i v hv
        exact (eval_of_valueAfter hv).symm
      · simp only [eval, ihl, ihr]

theorem attains_left (h : (binary op left right l).Attains k) : left.Attains k := by
  intro f hf
  apply h
  rw [operators, List.append_assoc, List.take_append]
  exact List.mem_append_left _ hf

theorem attains_right (h : (binary op left right l).Attains k) :
    right.Attains (k - left.operations) := by
  intro f hf
  apply h
  rw [operators, List.append_assoc, List.take_append, List.take_append, length_operators]
  exact List.mem_append_right _ (List.mem_append_left _ hf)

theorem exists_eval_of_attains (h : e.Attains k) (hk : e.operations ≤ k) :
    ∃ v, e.eval = .ok v := by
  cases e with
  | literal v => exact ⟨v, rfl⟩
  | binary op left right l =>
      apply h
      rw [List.take_of_length_le (by simpa using hk), operators]
      exact List.mem_append_right _ (List.mem_singleton_self _)

/-- Node `i` is listed, and no listed node has it in its range of numbers. -/
def OutermostIn (nodes : List (Nat × Expr)) (i : Nat) : Prop :=
  (∃ f, (i, f) ∈ nodes) ∧ ∀ j g, (j, g) ∈ nodes → ¬ (j < i ∧ i < j + g.size)

/-- Nodes of separate ranges do not lie above each other. -/
theorem outermostIn_append_iff {ps qs : List (Nat × Expr)} {m : Nat}
    (hp : ∀ j g, (j, g) ∈ ps → j + g.size ≤ m) (hq : ∀ j g, (j, g) ∈ qs → m ≤ j) :
    OutermostIn (ps ++ qs) i ↔ OutermostIn ps i ∨ OutermostIn qs i := by
  simp only [OutermostIn, List.mem_append]
  constructor
  · rintro ⟨⟨f, hf | hf⟩, hnone⟩
    · exact .inl ⟨⟨f, hf⟩, fun j g hg => hnone j g (.inl hg)⟩
    · exact .inr ⟨⟨f, hf⟩, fun j g hg => hnone j g (.inr hg)⟩
  · rintro (⟨⟨f, hf⟩, hnone⟩ | ⟨⟨f, hf⟩, hnone⟩)
    · refine ⟨⟨f, .inl hf⟩, ?_⟩
      rintro j g (hg | hg)
      · exact hnone j g hg
      · have := hp i f hf
        have := hq j g hg
        omega
    · refine ⟨⟨f, .inr hf⟩, ?_⟩
      rintro j g (hg | hg)
      · have := hp j g hg
        have := hq i f hf
        omega
      · exact hnone j g hg

theorem outermostIn_operatorsFrom_iff :
    OutermostIn ((binary op left right l).operatorsFrom n) i ↔ i = n := by
  have hroot : (n, binary op left right l) ∈ (binary op left right l).operatorsFrom n := by
    simp [operatorsFrom]
  constructor
  · rintro ⟨⟨f, hf⟩, hnone⟩
    have hnode := (mem_operatorsFrom_iff.1 hf).1
    have := hnode.bounds
    have := hnode.lt
    have := hnone n _ hroot
    omega
  · rintro rfl
    refine ⟨⟨_, hroot⟩, fun j g hg => ?_⟩
    have := (mem_operatorsFrom_iff.1 hg).1.bounds
    omega

/-- The outermost operators are the reduced ones that lie below no reduced one. -/
theorem mem_outermost_iff (h : e.Attains k) :
    (∃ v, (i, v) ∈ e.outermost k n) ↔ OutermostIn ((e.operatorsFrom n).take k) i := by
  induction e generalizing n k with
  | literal => simp [outermost, operatorsFrom, OutermostIn]
  | binary op left right l ihl ihr =>
      by_cases hk : k < (binary op left right l).operations
      · have hleft : ∀ j g, (j, g) ∈ (left.operatorsFrom (n + 1)).take k →
            j + g.size ≤ n + 1 + left.size := by
          intro j g hg
          exact (mem_operatorsFrom_iff.1 (List.mem_of_mem_take hg)).1.bounds.2
        have hright : ∀ j g, (j, g) ∈ (right.operatorsFrom (n + 1 + left.size)).take
            (k - left.operations) → n + 1 + left.size ≤ j := by
          intro j g hg
          exact (mem_operatorsFrom_iff.1 (List.mem_of_mem_take hg)).1.bounds.1
        rw [outermost_of_lt hk, take_operatorsFrom_of_lt hk, outermostIn_append_iff hleft hright,
          ← ihl (attains_left h), ← ihr (attains_right h), ← exists_or]
        simp only [List.mem_append]
      · have hk : (binary op left right l).operations ≤ k := Nat.le_of_not_lt hk
        obtain ⟨v, hv⟩ := exists_eval_of_attains h hk
        rw [outermost_of_eval hv hk, take_operatorsFrom_of_le hk, outermostIn_operatorsFrom_iff]
        simp

/-- The outermost values, put in the place of their nodes, give the reduced expression. -/
theorem substitute_eq_reduced {values : Resolved}
    (h : ∀ i v, n ≤ i → i < n + e.size → (values[i]? = some v ↔ (i, v) ∈ e.outermost k n)) :
    e.substitute values n = e.reduced k := by
  induction e generalizing n k with
  | literal v l width =>
      have hroot : values[n]? = none := by
        apply Option.eq_none_iff_forall_ne_some.2
        intro w hw
        simpa [outermost] using (h n w (Nat.le_refl n) (Nat.lt_succ_self n)).1 hw
      rw [substitute, hroot, reduced]
  | binary op left right l ihl ihr =>
      have hsize : (binary op left right l).size = left.size + right.size + 1 := rfl
      rw [substitute, reduced]
      rw [outermost] at h
      cases hvalue : (binary op left right l).valueAfter k with
      | some v =>
          simp only [hvalue, List.mem_singleton] at h
          rw [(h n v (Nat.le_refl n) (by omega)).2 rfl]
          rfl
      | none =>
          simp only [hvalue, List.mem_append] at h
          have hroot : values[n]? = none := by
            apply Option.eq_none_iff_forall_ne_some.2
            intro w hw
            rcases (h n w (Nat.le_refl n) (by omega)).1 hw with hw | hw
            · have := (bounds_of_mem_outermost hw).1
              omega
            · have := (bounds_of_mem_outermost hw).1
              omega
          have hleft : left.substitute values (n + 1) = left.reduced k := by
            apply ihl
            intro i v hi hlt
            rw [h i v (by omega) (by omega)]
            refine or_iff_left fun hright => ?_
            have := (bounds_of_mem_outermost hright).1
            omega
          have hright : right.substitute values (n + 1 + left.size) =
              right.reduced (k - left.operations) := by
            apply ihr
            intro i v hi hlt
            rw [h i v (by omega) (by omega)]
            refine or_iff_right fun hleft => ?_
            have := (bounds_of_mem_outermost hleft).2
            omega
          simp only [hroot, hleft, hright]

end Expr

end StepCalc
