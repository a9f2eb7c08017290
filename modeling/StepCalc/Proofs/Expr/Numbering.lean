import StepCalc.Expr.Outline
import StepCalc.Proofs.Expr.Operators

/-!
# Node numbers

`Expr.NodeAt` says which node has which number by following the tree, and agrees
with the outline. The nodes below a node have the numbers that come right after its
own, so one node lies above another exactly if its range of numbers contains the
other. In the order of evaluation all operators below an operator come before it.
-/

namespace StepCalc

namespace Expr

/-- In `e`, whose root is node `n`, node `i` is the root of `f`. -/
inductive NodeAt : Expr → Nat → Nat → Expr → Prop
  | root (e : Expr) (n : Nat) : NodeAt e n n e
  | left {left f : Expr} {n i : Nat} (op : Op) (right : Expr) (l : Location)
      (h : NodeAt left (n + 1) i f) : NodeAt (binary op left right l) n i f
  | right {right f : Expr} {n i : Nat} (op : Op) (left : Expr) (l : Location)
      (h : NodeAt right (n + 1 + left.size) i f) : NodeAt (binary op left right l) n i f

/-- Node `c` is an operand of node `p`. -/
def IsOperand (e : Expr) (p c : Nat) : Prop :=
  ∃ left right, e.operands p = some (left, right) ∧ (c = left ∨ c = right)

/-- Node `m` lies above node `n`: it is the operator of `n`, or of a node that lies
above `n`. -/
def Above (e : Expr) : Nat → Nat → Prop :=
  Relation.TransGen e.IsOperand

/-- The operators of `e`, whose root is node `n`, with their numbers in the order of
evaluation. -/
def operatorsFrom (n : Nat) : Expr → List (Nat × Expr)
  | literal .. => []
  | binary op left right l =>
    left.operatorsFrom (n + 1) ++ right.operatorsFrom (n + 1 + left.size) ++
      [(n, binary op left right l)]

/-- The numbers of the operators in the order of evaluation. -/
def operatorNumbers (e : Expr) : List Nat :=
  e.postOrder.filter fun i => (e.operands i).isSome

variable {e f g left right : Expr} {op : Op} {l : Location} {n i j k : Nat}

theorem nodeAt_literal_iff {v : Value} {width : Nat} :
    (literal v l width).NodeAt n i f ↔ i = n ∧ f = literal v l width := by
  constructor
  · intro h
    cases h
    exact ⟨rfl, rfl⟩
  · rintro ⟨rfl, rfl⟩
    exact .root _ _

theorem nodeAt_binary_iff :
    (binary op left right l).NodeAt n i f ↔
      (i = n ∧ f = binary op left right l) ∨ left.NodeAt (n + 1) i f ∨
        right.NodeAt (n + 1 + left.size) i f := by
  constructor
  · intro h
    cases h with
    | root => exact .inl ⟨rfl, rfl⟩
    | left _ _ _ h => exact .inr (.inl h)
    | right _ _ _ h => exact .inr (.inr h)
  · rintro (⟨rfl, rfl⟩ | h | h)
    · exact .root _ _
    · exact .left op right l h
    · exact .right op left l h

namespace NodeAt

/-- The numbers below a node lie among those of the whole. -/
theorem bounds (h : e.NodeAt n i f) : n ≤ i ∧ i + f.size ≤ n + e.size := by
  induction h with
  | root => exact ⟨Nat.le_refl _, Nat.le_refl _⟩
  | left op right l _ ih | right op left l _ ih =>
      simp only [size]
      omega

theorem lt (h : e.NodeAt n i f) : i < n + e.size := by
  have := h.bounds
  have := f.size_pos
  omega

theorem operands (h : e.NodeAt n i (binary op left right l)) :
    e.NodeAt n (i + 1) left ∧ e.NodeAt n (i + 1 + left.size) right := by
  generalize hf : binary op left right l = f at h
  induction h with
  | root e n =>
      subst hf
      exact ⟨.left op right l (.root _ _), .right op left l (.root _ _)⟩
  | left op' right' l' _ ih =>
      exact ⟨.left op' right' l' (ih hf).1, .left op' right' l' (ih hf).2⟩
  | right op' left' l' _ ih =>
      exact ⟨.right op' left' l' (ih hf).1, .right op' left' l' (ih hf).2⟩

theorem trans (h : e.NodeAt n i f) (h' : f.NodeAt i j g) : e.NodeAt n j g := by
  induction h with
  | root => exact h'
  | left op right l _ ih => exact .left op right l (ih h')
  | right op left l _ ih => exact .right op left l (ih h')

end NodeAt

/-- Every number in range is a node's. -/
theorem exists_nodeAt (hi : n ≤ i) (hlt : i < n + e.size) : ∃ f, e.NodeAt n i f := by
  induction e generalizing n with
  | literal v l width =>
      obtain rfl : i = n := by simp only [size] at hlt; omega
      exact ⟨_, .root _ _⟩
  | binary op left right l ihl ihr =>
      simp only [size] at hlt
      by_cases hroot : i = n
      · subst hroot
        exact ⟨_, .root _ _⟩
      · by_cases hleft : i < n + 1 + left.size
        · obtain ⟨f, hf⟩ := ihl (n := n + 1) (by omega) hleft
          exact ⟨f, .left op right l hf⟩
        · obtain ⟨f, hf⟩ := ihr (n := n + 1 + left.size) (by omega) (by omega)
          exact ⟨f, .right op left l hf⟩

theorem NodeAt.exists_getElem?_entries (h : e.NodeAt n i f) (depth : Nat) :
    ∃ d, (e.entries depth)[i - n]? = some ⟨f, d⟩ := by
  induction h generalizing depth with
  | root e n =>
      refine ⟨depth, ?_⟩
      rw [Nat.sub_self]
      cases e <;> rfl
  | @left left f n i op right l h ih =>
      obtain ⟨d, hd⟩ := ih (depth + 1)
      refine ⟨d, ?_⟩
      have hbounds := h.bounds
      have hlt := h.lt
      have hi : i - n = i - (n + 1) + 1 := by omega
      rw [entries, hi, List.getElem?_cons_succ, List.getElem?_append_left (by simp; omega), hd]
  | @right right f n i op left l h ih =>
      obtain ⟨d, hd⟩ := ih (depth + 1)
      refine ⟨d, ?_⟩
      have hbounds := h.bounds
      have hi : i - n = i - (n + 1 + left.size) + left.size + 1 := by omega
      rw [entries, hi, List.getElem?_cons_succ, List.getElem?_append_right (by simp),
        length_entries, Nat.add_sub_cancel, hd]

theorem NodeAt.unique (h : e.NodeAt n i f) (h' : e.NodeAt n i g) : f = g := by
  obtain ⟨d, hd⟩ := h.exists_getElem?_entries 0
  obtain ⟨d', hd'⟩ := h'.exists_getElem?_entries 0
  exact (Entry.mk.inj (Option.some.inj (hd.symm.trans hd'))).1

/-- The outline lists the nodes by their numbers. -/
theorem nodeAt_iff_outline : e.NodeAt 0 i f ↔ ∃ d, e.outline[i]? = some ⟨f, d⟩ := by
  rw [← Array.getElem?_toList, toList_outline]
  constructor
  · intro h
    exact h.exists_getElem?_entries 0
  · rintro ⟨d, hd⟩
    have hlt : i < 0 + e.size := by
      rw [Nat.zero_add, ← length_entries 0]
      exact (List.getElem?_eq_some_iff.1 hd).1
    obtain ⟨g, hg⟩ := exists_nodeAt (Nat.zero_le i) hlt
    obtain ⟨d', hd'⟩ := hg.exists_getElem?_entries 0
    rw [Nat.sub_zero, hd, Option.some.injEq, Entry.mk.injEq] at hd'
    exact hd'.1 ▸ hg

/-- A node within the range of another has all of its own range there. -/
theorem NodeAt.nested (h : e.NodeAt n i f) (h' : e.NodeAt n j g) (hij : i ≤ j)
    (hj : j < i + f.size) : j + g.size ≤ i + f.size := by
  obtain ⟨g', hg'⟩ := exists_nodeAt hij hj
  obtain rfl := (h.trans hg').unique h'
  exact hg'.bounds.2

theorem operands_eq_some_iff :
    e.operands i = some (j, k) ↔
      ∃ op left right l, e.NodeAt 0 i (binary op left right l) ∧
        j = i + 1 ∧ k = i + 1 + left.size := by
  unfold operands
  constructor
  · intro h
    obtain ⟨⟨f, d⟩, hentry, hf⟩ := Option.bind_eq_some_iff.1 h
    cases f with
    | literal => cases hf
    | binary op left right l =>
        obtain ⟨rfl, rfl⟩ := Prod.mk.inj (Option.some.inj hf)
        exact ⟨op, left, right, l, nodeAt_iff_outline.2 ⟨d, hentry⟩, rfl, rfl⟩
  · rintro ⟨op, left, right, l, h, rfl, rfl⟩
    obtain ⟨d, hd⟩ := nodeAt_iff_outline.1 h
    rw [hd]
    rfl

theorem isSome_operands_iff :
    (e.operands i).isSome = true ↔ ∃ op left right l, e.NodeAt 0 i (binary op left right l) := by
  rw [Option.isSome_iff_exists]
  constructor
  · rintro ⟨⟨j, k⟩, h⟩
    obtain ⟨op, left, right, l, hnode, -⟩ := operands_eq_some_iff.1 h
    exact ⟨op, left, right, l, hnode⟩
  · rintro ⟨op, left, right, l, hnode⟩
    exact ⟨_, operands_eq_some_iff.2 ⟨op, left, right, l, hnode, rfl, rfl⟩⟩

theorem isOperand_iff :
    e.IsOperand i j ↔ ∃ op left right l, e.NodeAt 0 i (binary op left right l) ∧
      (j = i + 1 ∨ j = i + 1 + left.size) := by
  constructor
  · rintro ⟨a, b, h, hj⟩
    obtain ⟨op, left, right, l, hnode, rfl, rfl⟩ := operands_eq_some_iff.1 h
    exact ⟨op, left, right, l, hnode, hj⟩
  · rintro ⟨op, left, right, l, hnode, hj⟩
    exact ⟨_, _, operands_eq_some_iff.2 ⟨op, left, right, l, hnode, rfl, rfl⟩, hj⟩

theorem above_of_lt (h : e.NodeAt 0 i f) (hij : i < j) (hj : j < i + f.size) : e.Above i j := by
  induction f generalizing i with
  | literal => simp only [size] at hj; omega
  | binary op left right l ihl ihr =>
      simp only [size] at hj
      obtain ⟨hleft, hright⟩ := h.operands
      have hfirst : e.IsOperand i (i + 1) := isOperand_iff.2 ⟨op, left, right, l, h, .inl rfl⟩
      have hsecond : e.IsOperand i (i + 1 + left.size) :=
        isOperand_iff.2 ⟨op, left, right, l, h, .inr rfl⟩
      by_cases hl : j < i + 1 + left.size
      · by_cases hj' : j = i + 1
        · exact hj' ▸ .single hfirst
        · exact .trans (.single hfirst) (ihl hleft (by omega) hl)
      · by_cases hj' : j = i + 1 + left.size
        · exact hj' ▸ .single hsecond
        · exact .trans (.single hsecond) (ihr hright (by omega) (by omega))

/-- A node lies above those in its range of numbers. -/
theorem above_iff : e.Above i j ↔ ∃ f, e.NodeAt 0 i f ∧ i < j ∧ j < i + f.size := by
  constructor
  · intro h
    induction h with
    | single h =>
        obtain ⟨op, left, right, l, hnode, hj⟩ := isOperand_iff.1 h
        have := right.size_pos
        refine ⟨_, hnode, ?_⟩
        simp only [size]
        omega
    | @tail b c _ h ih =>
        obtain ⟨f, hf, hib, hbf⟩ := ih
        obtain ⟨op, left, right, l, hnode, hc⟩ := isOperand_iff.1 h
        have hnested := hf.nested hnode (Nat.le_of_lt hib) hbf
        have := right.size_pos
        refine ⟨f, hf, ?_⟩
        simp only [size] at hnested
        omega
  · rintro ⟨f, hf, hij, hj⟩
    exact above_of_lt hf hij hj

/-- What lies above an operand is its operator or lies above that. -/
theorem eq_or_above_of_above_operand {m : Nat} (h : e.IsOperand n i) (hm : e.Above m i) :
    m = n ∨ e.Above m n := by
  obtain ⟨op, left, right, l, hnode, hi⟩ := isOperand_iff.1 h
  obtain ⟨f, hf, hlt, hrange⟩ := above_iff.1 hm
  have hleft := hnode.operands.1
  by_cases hmn : m ≤ n
  · rcases Nat.eq_or_lt_of_le hmn with rfl | hmn
    · exact .inl rfl
    · exact .inr (above_iff.2 ⟨f, hf, hmn, by omega⟩)
  · -- a node between the two lies within the left operand, as all of its range does
    have hnested := hleft.nested hf (by omega) (by omega)
    omega

@[simp] theorem length_operatorsFrom (n : Nat) (e : Expr) :
    (e.operatorsFrom n).length = e.operations := by
  induction e generalizing n with
  | literal => rfl
  | binary op left right l ihl ihr => simp [operatorsFrom, operations, ihl, ihr, Nat.add_assoc]

theorem map_snd_operatorsFrom (n : Nat) (e : Expr) :
    (e.operatorsFrom n).map Prod.snd = e.operators := by
  induction e generalizing n with
  | literal => rfl
  | binary op left right l ihl ihr => simp [operatorsFrom, operators, ihl, ihr]

theorem mem_operatorsFrom_iff :
    (i, f) ∈ e.operatorsFrom n ↔
      e.NodeAt n i f ∧ ∃ op left right l, f = binary op left right l := by
  induction e generalizing n with
  | literal v l width =>
      simp only [operatorsFrom, List.not_mem_nil, false_iff, nodeAt_literal_iff]
      rintro ⟨⟨-, rfl⟩, op, left, right, l, h⟩
      cases h
  | binary op left right l ihl ihr =>
      simp only [operatorsFrom, List.mem_append, List.mem_singleton, Prod.mk.injEq, ihl, ihr,
        nodeAt_binary_iff]
      constructor
      · rintro ((⟨h, hf⟩ | ⟨h, hf⟩) | ⟨rfl, rfl⟩)
        · exact ⟨.inr (.inl h), hf⟩
        · exact ⟨.inr (.inr h), hf⟩
        · exact ⟨.inl ⟨rfl, rfl⟩, op, left, right, l, rfl⟩
      · rintro ⟨⟨rfl, rfl⟩ | h | h, hf⟩
        · exact .inr ⟨rfl, rfl⟩
        · exact .inl (.inl ⟨h, hf⟩)
        · exact .inl (.inr ⟨h, hf⟩)

theorem filter_postOrderFrom {p : Nat → Bool}
    (hp : ∀ i f, e.NodeAt n i f → (p i = true ↔ ∃ op left right l, f = binary op left right l)) :
    (e.postOrderFrom n []).filter p = (e.operatorsFrom n).map Prod.fst := by
  induction e generalizing n with
  | literal v l width =>
      have hroot : ¬ p n = true := by simpa using hp n _ (.root _ _)
      simp [postOrderFrom, operatorsFrom, hroot]
  | binary op left right l ihl ihr =>
      have hroot : p n = true := (hp n _ (.root _ _)).2 ⟨op, left, right, l, rfl⟩
      have hleft := ihl fun i f h => hp i f (.left op right l h)
      have hright := ihr fun i f h => hp i f (.right op left l h)
      rw [postOrderFrom, postOrderFrom_append, postOrderFrom_append _ right, List.filter_append,
        List.filter_append, hleft, hright]
      simp [operatorsFrom, hroot]

theorem operatorNumbers_eq (e : Expr) : e.operatorNumbers = (e.operatorsFrom 0).map Prod.fst := by
  apply filter_postOrderFrom
  intro i f hnode
  rw [isSome_operands_iff]
  constructor
  · rintro ⟨op, left, right, l, h⟩
    exact ⟨op, left, right, l, hnode.unique h⟩
  · rintro ⟨op, left, right, l, rfl⟩
    exact ⟨op, left, right, l, hnode⟩

/-- Before the operator at the root is reached, only operators of the operands are. -/
theorem take_operatorsFrom_of_lt (hk : k < (binary op left right l).operations) :
    ((binary op left right l).operatorsFrom n).take k =
      (left.operatorsFrom (n + 1)).take k ++
        (right.operatorsFrom (n + 1 + left.size)).take (k - left.operations) := by
  simp only [operations] at hk
  rw [operatorsFrom, List.take_append_of_le_length (by simp; omega), List.take_append,
    length_operatorsFrom]

theorem take_operatorsFrom_of_le (hk : e.operations ≤ k) :
    (e.operatorsFrom n).take k = e.operatorsFrom n :=
  List.take_of_length_le (by simpa using hk)

/-- Among the first operators in the order of evaluation there are, with each of
them, all operators below it. -/
theorem mem_take_of_below (hf : (i, f) ∈ (e.operatorsFrom n).take k)
    (hg : (j, g) ∈ e.operatorsFrom n) (hij : i < j) (hj : j < i + f.size) :
    (j, g) ∈ (e.operatorsFrom n).take k := by
  induction e generalizing n k with
  | literal => simp [operatorsFrom] at hg
  | binary op left right l ihl ihr =>
      by_cases hk : k < (binary op left right l).operations
      · rw [take_operatorsFrom_of_lt hk, List.mem_append] at hf ⊢
        simp only [operatorsFrom, List.mem_append, List.mem_singleton, Prod.mk.injEq] at hg
        rcases hf with hf | hf
        · have hbounds := (mem_operatorsFrom_iff.1 (List.mem_of_mem_take hf)).1.bounds
          rcases hg with (hg | hg) | ⟨rfl, -⟩
          · exact .inl (ihl hf hg)
          · have := (mem_operatorsFrom_iff.1 hg).1.bounds
            omega
          · omega
        · have hbounds := (mem_operatorsFrom_iff.1 (List.mem_of_mem_take hf)).1.bounds
          rcases hg with (hg | hg) | ⟨rfl, -⟩
          · have := (mem_operatorsFrom_iff.1 hg).1.lt
            omega
          · exact .inr (ihr hf hg)
          · omega
      · rwa [take_operatorsFrom_of_le (Nat.le_of_not_lt hk)]

end Expr

end StepCalc
