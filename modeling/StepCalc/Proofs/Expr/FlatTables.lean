import StepCalc.Expr.Index
import StepCalc.Proofs.Expr.Numbering

/-!
# The tables of a flat tree

The index of an expression lists its nodes in pre-order, and each of its tables has what the
tree says of the node with that number (`Index.Tabulates`). Each pass has an invariant: from
the last node down to node `k` the sizes and spans are right, and the depths are right of
every node whose operator comes before node `k`.
-/

namespace StepCalc

namespace Expr

/-- The nodes in pre-order: each before its operands, and the left operand first. -/
def preorder : Expr → List Expr
  | literal v l width => [literal v l width]
  | binary op left right l => binary op left right l :: (left.preorder ++ right.preorder)

/-- Node `i` is `d` steps from operator to operand away from the root. -/
inductive Distance (e : Expr) : Nat → Nat → Prop
  | root : Distance e 0 0
  | operand {i j d : Nat} (above : Distance e i d) (h : e.IsOperand i j) : Distance e j (d + 1)

variable {e f : Expr} {i j k d : Nat}

theorem map_node_entries (e : Expr) (depth : Nat) :
    (e.entries depth).map Entry.node = e.preorder := by
  induction e generalizing depth with
  | literal => rfl
  | binary op left right l ihl ihr => simp [entries, preorder, ihl, ihr]

@[simp] theorem length_preorder (e : Expr) : e.preorder.length = e.size := by
  rw [← map_node_entries e 0, List.length_map, length_entries]

theorem getElem?_preorder : e.preorder[i]? = some f ↔ e.NodeAt 0 i f := by
  rw [nodeAt_iff_outline, ← map_node_entries e 0, ← toList_outline, List.getElem?_map,
    Array.getElem?_toList, Option.map_eq_some_iff]
  constructor
  · rintro ⟨⟨_, d⟩, hentry, rfl⟩
    exact ⟨d, hentry⟩
  · rintro ⟨d, hentry⟩
    exact ⟨⟨f, d⟩, hentry, rfl⟩

theorem countP_preorder (e : Expr) :
    e.preorder.countP (fun f => f matches .binary ..) = e.operations := by
  induction e with
  | literal => rfl
  | binary op left right l ihl ihr =>
      rw [preorder, List.countP_cons, List.countP_append, ihl, ihr]
      rfl

theorem IsOperand.lt (h : e.IsOperand i j) : i < j := by
  obtain ⟨op, left, right, l, -, hj⟩ := isOperand_iff.1 h
  omega

theorem IsOperand.lt_size (h : e.IsOperand i j) : j < e.size := by
  obtain ⟨op, left, right, l, hnode, hj⟩ := isOperand_iff.1 h
  obtain ⟨hleft, hright⟩ := hnode.operands
  have := hleft.lt
  have := hright.lt
  omega

/-- A node is an operand of one operator only. -/
theorem IsOperand.unique (h : e.IsOperand i j) (h' : e.IsOperand k j) : i = k := by
  have hlt : ∀ {a b}, e.Above a b → a < b := fun hab => (above_iff.1 hab).choose_spec.2.1
  rcases eq_or_above_of_above_operand h' (.single h) with hik | hik
  · exact hik
  · rcases eq_or_above_of_above_operand h (.single h') with hki | hki
    · exact hki.symm
    · have := hlt hik
      have := hlt hki
      omega

/-- Every node but the root is an operand. -/
theorem exists_isOperand (hpos : 0 < i) (hlt : i < e.size) : ∃ p, e.IsOperand p i := by
  have habove : e.Above 0 i := above_of_lt (.root e 0) hpos (by omega)
  cases habove with
  | single h => exact ⟨0, h⟩
  | tail _ h => exact ⟨_, h⟩

theorem Distance.lt_size (h : e.Distance i d) : i < e.size := by
  cases h with
  | root => exact e.size_pos
  | operand _ h => exact h.lt_size

theorem Distance.unique {d' : Nat} (h : e.Distance i d) (h' : e.Distance i d') : d = d' := by
  induction h generalizing d' with
  | root =>
      cases h' with
      | root => rfl
      | operand _ h => exact absurd h.lt (Nat.not_lt_zero _)
  | operand _ h ih =>
      cases h' with
      | root => exact absurd h.lt (Nat.not_lt_zero _)
      | operand above h' =>
          obtain rfl := h.unique h'
          rw [ih above]

theorem exists_distance (hlt : i < e.size) : ∃ d, e.Distance i d := by
  induction i using Nat.strongRecOn with
  | ind i ih =>
      by_cases hpos : 0 < i
      · obtain ⟨p, hp⟩ := exists_isOperand hpos hlt
        obtain ⟨d, hd⟩ := ih p hp.lt (Nat.lt_trans hp.lt hlt)
        exact ⟨d + 1, hd.operand hp⟩
      · obtain rfl : i = 0 := by omega
        exact ⟨0, .root⟩

end Expr

/-- Writing to a cell that is there changes that cell and no other. -/
theorem exists_write? {α : Type} {cells : Array α} {i : Nat} (hi : i < cells.size) (x : α) :
    ∃ cells', write? cells i x = some cells' ∧ cells'.size = cells.size ∧
      cells'[i]? = some x ∧ ∀ j, j ≠ i → cells'[j]? = cells[j]? := by
  refine ⟨cells.set i x hi, by simp [write?, hi], by simp, by simp [hi], fun j hj => ?_⟩
  exact Array.getElem?_set_ne hi (Ne.symm hj)

namespace Index

open StepCalc.Expr

theorem collect_eq (done : Array Expr) (stack : List Expr) :
    collect done stack = done ++ (stack.flatMap preorder).toArray := by
  fun_induction collect done stack with
  | case1 done => simp
  | case2 done v l width rest ih => simp [ih, preorder]
  | case3 done op left right l rest ih =>
      rw [ih]
      apply Array.toList_inj.1
      simp [preorder]

variable {e : Expr} {nodes : Array Expr} {k : Nat}

section Measuring

/-- The sizes and spans of the nodes from number `k` on; the other sizes are still one. -/
structure Measured (e : Expr) (k : Nat) (cells : Array Nat × Array Span) : Prop where
  size_fst : cells.1.size = e.size
  size_snd : cells.2.size = e.size
  one : ∀ i, i < k → i < e.size → cells.1[i]? = some 1
  size : ∀ i f, k ≤ i → e.NodeAt 0 i f → cells.1[i]? = some f.size
  span : ∀ i f, k ≤ i → e.NodeAt 0 i f → cells.2[i]? = some f.span

variable {cells : Array Nat × Array Span}

theorem measured_start (e : Expr) :
    Measured e e.size (Array.replicate e.size 1, Array.replicate e.size ⟨0, 0⟩) := by
  have hrange : ∀ i f, e.size ≤ i → ¬ e.NodeAt 0 i f := by
    intro i f hi hnode
    have := hnode.lt
    omega
  constructor
  case size_fst => simp
  case size_snd => simp
  case one => exact fun i _ hi => by simp [hi]
  case size => exact fun i f hi hnode => absurd hnode (hrange i f hi)
  case span => exact fun i f hi hnode => absurd hnode (hrange i f hi)

/-- A step down from node `k + 1` is made by filling the cells of node `k`. -/
theorem Measured.fill {sizes sizes' : Array Nat} {spans spans' : Array Span} {f : Expr}
    (h : Measured e (k + 1) (sizes, spans)) (hf : e.NodeAt 0 k f)
    (hsizes : sizes'.size = sizes.size) (hspans : spans'.size = spans.size)
    (hsize : sizes'[k]? = some f.size) (hspan : spans'[k]? = some f.span)
    (hother : ∀ j, j ≠ k → sizes'[j]? = sizes[j]?)
    (hother' : ∀ j, j ≠ k → spans'[j]? = spans[j]?) : Measured e k (sizes', spans') := by
  constructor
  case size_fst => exact hsizes.trans h.size_fst
  case size_snd => exact hspans.trans h.size_snd
  case one =>
    intro i hi hlt
    rw [hother i (by omega)]
    exact h.one i (by omega) hlt
  case size =>
    intro i g hi hg
    by_cases hik : i = k
    · subst hik
      rw [hf.unique hg] at hsize
      exact hsize
    · rw [hother i hik]
      exact h.size i g (by omega) hg
  case span =>
    intro i g hi hg
    by_cases hik : i = k
    · subst hik
      rw [hf.unique hg] at hspan
      exact hspan
    · rw [hother' i hik]
      exact h.span i g (by omega) hg

/-- The operands of a node have larger numbers, so their cells are right when its own are
filled. -/
theorem Measured.exists_measure? (hnodes : ∀ i f, nodes[i]? = some f ↔ e.NodeAt 0 i f)
    (h : Measured e (k + 1) cells) (hk : k < e.size) :
    ∃ cells', measure? nodes cells k = some cells' ∧ Measured e k cells' := by
  obtain ⟨sizes, spans⟩ := cells
  obtain ⟨f, hf⟩ := exists_nodeAt (Nat.zero_le k) (by omega : k < 0 + e.size)
  have hnode := (hnodes k f).2 hf
  have hsizes : k < sizes.size := Nat.lt_of_lt_of_eq hk h.size_fst.symm
  have hspans : k < spans.size := Nat.lt_of_lt_of_eq hk h.size_snd.symm
  cases f with
  | literal v l width =>
      obtain ⟨spans', hwrite, hsize', hcell, hother⟩ :=
        exists_write? hspans (Span.mk l.offset (l.offset + width))
      refine ⟨(sizes, spans'), by simp [measure?, hnode, hwrite], ?_⟩
      exact h.fill hf rfl hsize' (h.one k (by omega) hk) hcell (fun _ _ => rfl) hother
  | binary op left right l =>
      obtain ⟨hleft, hright⟩ := hf.operands
      have hleftSize : sizes[k + 1]? = some left.size := h.size _ _ (by omega) hleft
      have hrightSize : sizes[k + 1 + left.size]? = some right.size :=
        h.size _ _ (by omega) hright
      have hfirst : spans[k + 1]? = some left.span := h.span _ _ (by omega) hleft
      have hlast : spans[k + 1 + left.size]? = some right.span := h.span _ _ (by omega) hright
      obtain ⟨sizes', hwrite, hsize, hcell, hother⟩ :=
        exists_write? hsizes (1 + left.size + right.size)
      obtain ⟨spans', hwrite', hsize', hcell', hother'⟩ :=
        exists_write? hspans (Span.mk left.span.start right.span.stop)
      refine ⟨(sizes', spans'), ?_, h.fill hf hsize hsize' ?_ hcell' hother hother'⟩
      · simp [measure?, hnode, hleftSize, hrightSize, hfirst, hlast, hwrite, hwrite']
      · rw [hcell, Expr.size]
        congr 1
        omega

theorem Measured.exists_foldlM (hnodes : ∀ i f, nodes[i]? = some f ↔ e.NodeAt 0 i f)
    (h : Measured e k cells) (hk : k ≤ e.size) :
    ∃ cells', (List.range k).reverse.foldlM (measure? nodes) cells = some cells' ∧
      Measured e 0 cells' := by
  induction k generalizing cells with
  | zero => exact ⟨cells, rfl, h⟩
  | succ k ih =>
      obtain ⟨mid, hstep, hmid⟩ := h.exists_measure? hnodes hk
      obtain ⟨cells', hrun, hcells'⟩ := ih hmid (Nat.le_of_lt hk)
      refine ⟨cells', ?_, hcells'⟩
      rw [List.range_succ, List.reverse_append, List.reverse_singleton, List.singleton_append,
        List.foldlM_cons, hstep]
      exact hrun

end Measuring

section Deepening

/-- The depths of the nodes whose operator comes before node `k`. -/
structure Deepened (e : Expr) (k : Nat) (depths : Array Nat) : Prop where
  size : depths.size = e.size
  depth : ∀ i d, e.Distance i d → (∀ p, e.IsOperand p i → p < k) → depths[i]? = some d

variable {sizes depths : Array Nat}

theorem deepened_start (e : Expr) : Deepened e 0 (Array.replicate e.size 0) := by
  refine ⟨Array.size_replicate, fun i d hdistance hfirst => ?_⟩
  cases hdistance with
  | root => simp [e.size_pos]
  | operand _ h => exact absurd (hfirst _ h) (Nat.not_lt_zero _)

theorem Deepened.exists_deepen? (hnodes : ∀ i f, nodes[i]? = some f ↔ e.NodeAt 0 i f)
    (hsizes : ∀ i f, e.NodeAt 0 i f → sizes[i]? = some f.size)
    (h : Deepened e k depths) (hk : k < e.size) :
    ∃ depths', deepen? nodes sizes depths k = some depths' ∧ Deepened e (k + 1) depths' := by
  obtain ⟨f, hf⟩ := exists_nodeAt (Nat.zero_le k) (by omega : k < 0 + e.size)
  have hnode := (hnodes k f).2 hf
  cases f with
  | literal v l width =>
      refine ⟨depths, by simp [deepen?, hnode], h.size, fun i d hdistance hfirst => ?_⟩
      -- a literal is nobody's operator
      apply h.depth i d hdistance
      intro p hp
      have hlt := hfirst p hp
      have hne : p ≠ k := by
        rintro rfl
        obtain ⟨op, left, right, l', hoperator, -⟩ := isOperand_iff.1 hp
        cases hf.unique hoperator
      omega
  | binary op left right l =>
      obtain ⟨hleft, hright⟩ := hf.operands
      have hsize := hsizes _ _ hleft
      have hpos := left.size_pos
      obtain ⟨d, hd⟩ := exists_distance hk
      have hdepth : depths[k]? = some d := h.depth k d hd fun p hp => hp.lt
      have hleftIn : k + 1 < depths.size := by
        have := hleft.lt
        have := h.size
        omega
      obtain ⟨mid, hwrite, hmid, hcell, hother⟩ := exists_write? hleftIn (d + 1)
      have hrightIn : k + 1 + left.size < mid.size := by
        have := hright.lt
        have := h.size
        omega
      obtain ⟨depths', hwrite', hsize', hcell', hother'⟩ := exists_write? hrightIn (d + 1)
      refine ⟨depths', by simp [deepen?, hnode, hsize, hdepth, hwrite, hwrite'], ?_, ?_⟩
      · exact hsize'.trans (hmid.trans h.size)
      · intro i d' hd' hfirst
        have hiff : e.IsOperand k i ↔ i = k + 1 ∨ i = k + 1 + left.size := by
          rw [isOperand_iff]
          constructor
          · rintro ⟨op', left', right', l', hf', hi⟩
            cases hf.unique hf'
            exact hi
          · exact fun hi => ⟨op, left, right, l, hf, hi⟩
        by_cases hoperand : e.IsOperand k i
        · rw [hd'.unique (hd.operand hoperand)]
          rcases hiff.1 hoperand with rfl | rfl
          · rw [hother' _ (by omega)]
            exact hcell
          · exact hcell'
        · have hne : ¬ (i = k + 1 ∨ i = k + 1 + left.size) := mt hiff.2 hoperand
          rw [hother' i (by omega), hother i (by omega)]
          apply h.depth i d' hd'
          intro p hp
          have hlt := hfirst p hp
          have hpk : p ≠ k := by
            rintro rfl
            exact hoperand hp
          omega

theorem Deepened.exists_foldlM (hnodes : ∀ i f, nodes[i]? = some f ↔ e.NodeAt 0 i f)
    (hsizes : ∀ i f, e.NodeAt 0 i f → sizes[i]? = some f.size) (hk : k ≤ e.size) :
    ∃ depths, (List.range k).foldlM (deepen? nodes sizes) (Array.replicate e.size 0) =
      some depths ∧ Deepened e k depths := by
  induction k with
  | zero => exact ⟨_, rfl, deepened_start e⟩
  | succ k ih =>
      obtain ⟨mid, hrun, hmid⟩ := ih (Nat.le_of_lt hk)
      obtain ⟨depths, hstep, hdepths⟩ := hmid.exists_deepen? hnodes hsizes hk
      refine ⟨depths, ?_, hdepths⟩
      rw [List.range_succ, List.foldlM_append, hrun]
      simpa using hstep

end Deepening

/-- The tables of the index have, at every number, what the tree says of that node. -/
structure Tabulates (ix : Index) (e : Expr) : Prop where
  nodes : ix.nodes.toList = e.preorder
  size : ∀ i f, e.NodeAt 0 i f → ix.sizes[i]? = some f.size
  span : ∀ i f, e.NodeAt 0 i f → ix.spans[i]? = some f.span
  depth : ∀ i d, ix.depths[i]? = some d ↔ e.Distance i d

/-- No pass leaves the tables, and together they fill them. -/
theorem exists_ofExpr? (e : Expr) : ∃ ix, ofExpr? e = some ix ∧ ix.Tabulates e := by
  have hcollect : collect #[] [e] = e.preorder.toArray := by simp [collect_eq]
  have hnodes : ∀ i f, e.preorder.toArray[i]? = some f ↔ e.NodeAt 0 i f := by
    intro i f
    rw [List.getElem?_toArray]
    exact getElem?_preorder
  have hcount : e.preorder.toArray.size = e.size := by simp
  obtain ⟨⟨sizes, spans⟩, hmeasure, hmeasured⟩ :=
    (measured_start e).exists_foldlM hnodes (Nat.le_refl _)
  have hsizes : ∀ i f, e.NodeAt 0 i f → sizes[i]? = some f.size :=
    fun i f => hmeasured.size i f (Nat.zero_le i)
  obtain ⟨depths, hdeepen, hdeepened⟩ := Deepened.exists_foldlM hnodes hsizes (Nat.le_refl _)
  have hdepths : ∀ i d, e.Distance i d → depths[i]? = some d :=
    fun i d hd => hdeepened.depth i d hd fun p hp => Nat.lt_trans hp.lt hd.lt_size
  refine ⟨⟨e.preorder.toArray, sizes, spans, depths⟩, ?_, ?_⟩
  · simp only [ofExpr?, hcollect, hcount, hmeasure, Option.bind_eq_bind, Option.bind_some, hdeepen]
    rfl
  · have hspans : ∀ i f, e.NodeAt 0 i f → spans[i]? = some f.span :=
      fun i f => hmeasured.span i f (Nat.zero_le i)
    refine ⟨rfl, hsizes, hspans, fun i d => ⟨fun hd => ?_, hdepths i d⟩⟩
    have hlt : i < e.size := hdeepened.size ▸ (Array.getElem?_eq_some_iff.1 hd).1
    obtain ⟨d', hd'⟩ := exists_distance hlt
    rwa [Option.some.inj (hd.symm.trans (hdepths i d' hd'))]

end Index

end StepCalc
