import StepCalc.Proofs.Expr.FlatTables

/-!
# Traversals of a flat tree

A loop over an index that finds a node on top of its stack comes, some steps later, to the
rest of the stack, and has done in between what the recursion over the node's subtree does:
listed, evaluated or written it. So each traversal of the index of an expression ends, stays
within the tables, and gives what the expression itself does (`Index.Agrees`).
-/

namespace StepCalc

namespace Expr

variable {e f left right : Expr} {op : Op} {l : Location} {n i : Nat}

theorem postOrderFrom_binary (n : Nat) (op : Op) (left right : Expr) (l : Location) :
    (binary op left right l).postOrderFrom n [] =
      left.postOrderFrom (n + 1) [] ++ (right.postOrderFrom (n + 1 + left.size) [] ++ [n]) := by
  rw [postOrderFrom, postOrderFrom_append, postOrderFrom_append _ right]

theorem postOrderFrom_binary_append (n : Nat) (op : Op) (left right : Expr) (l : Location)
    (rest : List Nat) :
    (binary op left right l).postOrderFrom n [] ++ rest =
      left.postOrderFrom (n + 1) [] ++
        (right.postOrderFrom (n + 1 + left.size) [] ++ n :: rest) := by
  rw [postOrderFrom_binary, List.append_assoc, List.append_assoc, List.singleton_append]

/-- Every number is listed once. -/
theorem postOrderFrom_perm (n : Nat) (e : Expr) :
    (e.postOrderFrom n []).Perm (List.range' n e.size) := by
  induction e generalizing n with
  | literal => exact List.Perm.refl _
  | binary op left right l ihl ihr =>
      have hrange : List.range' n (binary op left right l).size =
          n :: (List.range' (n + 1) left.size ++ List.range' (n + 1 + left.size) right.size) := by
        rw [List.range'_append_1, size, List.range'_succ]
      rw [postOrderFrom_binary, hrange, ← List.append_assoc]
      exact (List.perm_append_singleton n _).trans (((ihl _).append (ihr _)).cons n)

theorem mem_postOrderFrom_self (n : Nat) (e : Expr) : n ∈ e.postOrderFrom n [] := by
  rw [(postOrderFrom_perm n e).mem_iff, List.mem_range'_1]
  have := e.size_pos
  omega

theorem NodeAt.postOrderFrom_sublist (h : e.NodeAt n i f) :
    (f.postOrderFrom i []).Sublist (e.postOrderFrom n []) := by
  induction h with
  | root => exact List.Sublist.refl _
  | left op right l _ ih =>
      rw [postOrderFrom_binary]
      exact ih.trans (List.sublist_append_left _ _)
  | right op left l _ ih =>
      rw [postOrderFrom_binary]
      exact ih.trans ((List.sublist_append_left _ _).trans (List.sublist_append_right _ _))

/-- An operator is listed behind its operands, the left one first. -/
theorem NodeAt.operands_sublist_postOrder (h : e.NodeAt 0 i (binary op left right l)) :
    [i + 1, i + 1 + left.size, i].Sublist e.postOrder := by
  have hlist := h.postOrderFrom_sublist
  rw [postOrderFrom_binary] at hlist
  refine List.Sublist.trans ?_ hlist
  have hleft := List.singleton_sublist.2 (left.mem_postOrderFrom_self (i + 1))
  have hright := List.singleton_sublist.2 (right.mem_postOrderFrom_self (i + 1 + left.size))
  exact hleft.append (hright.append (List.Sublist.refl [i]))

end Expr

namespace Index

open StepCalc.Expr

variable {ix : Index} {e f left right : Expr} {op : Op} {l : Location} {n i j : Nat}

namespace Tabulates

theorem count_eq (h : ix.Tabulates e) : ix.count = e.size := by
  rw [count, ← Array.length_toList, h.nodes, length_preorder]

theorem operations_eq (h : ix.Tabulates e) : ix.operations = e.operations := by
  rw [operations, ← Array.countP_toList, h.nodes]
  exact countP_preorder e

theorem node_iff (h : ix.Tabulates e) : ix.nodes[i]? = some f ↔ e.NodeAt 0 i f := by
  rw [← Array.getElem?_toList, h.nodes]
  exact getElem?_preorder

theorem operands?_eq (h : ix.Tabulates e) (hf : e.NodeAt 0 n (binary op left right l)) :
    ix.operands? n = some (n + 1, n + 1 + left.size) := by
  rw [operands?, h.size _ _ hf.operands.1]
  rfl

end Tabulates

section Order

theorem order?_enter_literal {v : Value} {width : Nat}
    (hnode : ix.nodes[i]? = some (literal v l width)) (rest : List Visit) (done : Array Nat) :
    ix.order? (.enter i :: rest) done = ix.order? rest (done.push i) := by
  rw [order?]
  split <;> simp_all

theorem order?_enter_binary (hnode : ix.nodes[i]? = some (binary op left right l))
    {j k : Nat} (hoperands : ix.operands? i = some (j, k)) (rest : List Visit)
    (done : Array Nat) :
    ix.order? (.enter i :: rest) done =
      ix.order? (.enter j :: .enter k :: .leave i :: rest) done := by
  rw [order?]
  split
  · simp_all
  · simp_all
  · split <;> simp_all

/-- From a node on the stack the loop comes to the rest of the stack, and has listed the
subtree of the node. -/
theorem order?_enter (h : ix.Tabulates e) (hf : e.NodeAt 0 n f) (rest : List Visit)
    (done : Array Nat) :
    ix.order? (.enter n :: rest) done =
      ix.order? rest (done ++ (f.postOrderFrom n []).toArray) := by
  induction f generalizing n rest done with
  | literal v l width =>
      rw [order?_enter_literal (h.node_iff.2 hf)]
      rfl
  | binary op left right l ihl ihr =>
      obtain ⟨hleft, hright⟩ := hf.operands
      rw [order?_enter_binary (h.node_iff.2 hf) (h.operands?_eq hf), ihl hleft, ihr hright, order?,
        postOrderFrom_binary]
      congr 1
      apply Array.toList_inj.1
      simp

theorem postOrder?_eq (h : ix.Tabulates e) : ix.postOrder? = some e.postOrder.toArray := by
  rw [postOrder?, order?_enter h (.root e 0), order?]
  simp [postOrder]

end Order

section Evaluation

/-- The subtree `f` of node `n` has its value, and what lies outside is as before. -/
structure Filled (values values' : Array Value) (n : Nat) (f : Expr) (v : Value) : Prop where
  size : values'.size = values.size
  cell : values'[n]? = some v
  other : ∀ i, i < n ∨ n + f.size ≤ i → values'[i]? = values[i]?

variable {values first second : Array Value} {a b v : Value}

/-- A literal is filled by writing to its cell. -/
theorem exists_filled_literal {width : Nat} (hf : e.NodeAt 0 n (literal v l width))
    (hvalues : values.size = e.size) :
    ∃ values', write? values n v = some values' ∧
      Filled values values' n (literal v l width) v := by
  have hlt := hf.lt
  obtain ⟨values', hwrite, hsize, hcell, hother⟩ :=
    exists_write? (i := n) (by omega : n < values.size) v
  refine ⟨values', hwrite, hsize, hcell, fun i hi => hother i ?_⟩
  simp only [size] at hi
  omega

/-- Filling the right operand leaves the left one as it is. -/
theorem Filled.left_cell (hleft : Filled values first (n + 1) left a)
    (hright : Filled first second (n + 1 + left.size) right b) : second[n + 1]? = some a := by
  have hpos := left.size_pos
  rw [hright.other _ (by omega)]
  exact hleft.cell

/-- An operator is filled by filling its operands and writing to its own cell. -/
theorem Filled.exists_binary (hleft : Filled values first (n + 1) left a)
    (hright : Filled first second (n + 1 + left.size) right b)
    (hf : e.NodeAt 0 n (binary op left right l)) (hvalues : values.size = e.size) (v : Value) :
    ∃ values', write? second n v = some values' ∧
      Filled values values' n (binary op left right l) v ∧
      ∀ i, i ≠ n → values'[i]? = second[i]? := by
  have hlt := hf.lt
  have hsize : second.size = values.size := hright.size.trans hleft.size
  obtain ⟨values', hwrite, hsize', hcell, hother⟩ :=
    exists_write? (i := n) (by omega : n < second.size) v
  refine ⟨values', hwrite, ⟨hsize'.trans hsize, hcell, fun i hi => ?_⟩, hother⟩
  simp only [Expr.size] at hi
  rw [hother i (by omega), hright.other i (by omega), hleft.other i (by omega)]

theorem evalIn?_cons_literal {width : Nat} (hnode : ix.nodes[n]? = some (literal v l width))
    (rest : List Nat) :
    ix.evalIn? values (n :: rest) = (write? values n v).bind (ix.evalIn? · rest) := by
  simp [evalIn?, hnode]

theorem evalIn?_cons_binary (hnode : ix.nodes[n]? = some (binary op left right l))
    (hoperands : ix.operands? n = some (i, j)) (ha : values[i]? = some a)
    (hb : values[j]? = some b) (rest : List Nat) :
    ix.evalIn? values (n :: rest) =
      match op.apply a b l with
      | .error err => some (.error err)
      | .ok v => (write? values n v).bind (ix.evalIn? · rest) := by
  simp only [evalIn?, hnode, hoperands, ha, hb, Option.bind_eq_bind, Option.bind_some]
  cases op.apply a b l <;> rfl

/-- Evaluating the nodes of a subtree in order fills the cell of its root. -/
theorem exists_evalIn?_of_ok (h : ix.Tabulates e) (hf : e.NodeAt 0 n f)
    (hvalues : values.size = e.size) (hv : f.eval = .ok v) (rest : List Nat) :
    ∃ values', Filled values values' n f v ∧
      ix.evalIn? values (f.postOrderFrom n [] ++ rest) = ix.evalIn? values' rest := by
  induction f generalizing n v values rest with
  | literal w l width =>
      obtain rfl : w = v := Except.ok.inj hv
      obtain ⟨values', hwrite, hfilled⟩ := exists_filled_literal hf hvalues
      refine ⟨values', hfilled, ?_⟩
      rw [postOrderFrom, List.singleton_append, evalIn?_cons_literal (h.node_iff.2 hf), hwrite]
      rfl
  | binary op left right l ihl ihr =>
      obtain ⟨a, b, ha, hb, happly⟩ := eval_binary_eq_ok_iff.1 hv
      obtain ⟨hleft, hright⟩ := hf.operands
      rw [postOrderFrom_binary_append]
      obtain ⟨first, hfirst, hrun⟩ := ihl hleft hvalues ha
        (right.postOrderFrom (n + 1 + left.size) [] ++ n :: rest)
      obtain ⟨second, hsecond, hrun'⟩ := ihr hright (hfirst.size.trans hvalues) hb (n :: rest)
      obtain ⟨values', hwrite, hfilled, -⟩ := hfirst.exists_binary hsecond hf hvalues v
      refine ⟨values', hfilled, ?_⟩
      rw [hrun, hrun', evalIn?_cons_binary (h.node_iff.2 hf) (h.operands?_eq hf)
        (hfirst.left_cell hsecond) hsecond.cell, happly]
      simp only [hwrite, Option.bind_some]

/-- The first failure in a subtree ends the loop. -/
theorem evalIn?_of_error {err : EvalError} (h : ix.Tabulates e) (hf : e.NodeAt 0 n f)
    (hvalues : values.size = e.size) (herr : f.eval = .error err) (rest : List Nat) :
    ix.evalIn? values (f.postOrderFrom n [] ++ rest) = some (.error err) := by
  induction f generalizing n values rest with
  | literal => cases herr
  | binary op left right l ihl ihr =>
      obtain ⟨hleft, hright⟩ := hf.operands
      rw [postOrderFrom_binary_append]
      cases ha : left.eval with
      | error err' =>
          obtain rfl : err' = err := by simpa [eval, ha] using herr
          exact ihl hleft hvalues ha _
      | ok a =>
          obtain ⟨first, hfirst, hrun⟩ := exists_evalIn?_of_ok h hleft hvalues ha
            (right.postOrderFrom (n + 1 + left.size) [] ++ n :: rest)
          have hsize := hfirst.size.trans hvalues
          rw [hrun]
          cases hb : right.eval with
          | error err' =>
              obtain rfl : err' = err := by simpa [eval, ha, hb] using herr
              exact ihr hright hsize hb _
          | ok b =>
              have happly : op.apply a b l = .error err := by simpa [eval, ha, hb] using herr
              obtain ⟨second, hsecond, hrun'⟩ := exists_evalIn?_of_ok h hright hsize hb (n :: rest)
              rw [hrun', evalIn?_cons_binary (h.node_iff.2 hf) (h.operands?_eq hf)
                (hfirst.left_cell hsecond) hsecond.cell, happly]

theorem eval?_eq (h : ix.Tabulates e) : ix.eval? = some e.eval := by
  have hsize : (Array.replicate ix.count (0 : Value)).size = e.size := by simp [h.count_eq]
  have horder :
      ix.eval? = ix.evalIn? (Array.replicate ix.count 0) (e.postOrderFrom 0 [] ++ []) := by
    rw [eval?, postOrder?_eq h, List.append_nil]
    rfl
  rw [horder]
  cases hv : e.eval with
  | error err => exact evalIn?_of_error h (.root e 0) hsize hv []
  | ok v =>
      obtain ⟨values', hfilled, hrun⟩ := exists_evalIn?_of_ok h (.root e 0) hsize hv []
      rw [hrun, evalIn?, hfilled.cell]
      rfl

end Evaluation

section Writing

variable {values : Resolved} {done : List Char} {rest : List Piece}

theorem writeOnto?_value {v : Value} (hv : values[i]? = some v) :
    ix.writeOnto? values (.node i :: rest) done =
      ix.writeOnto? values rest (v.operand.reverse ++ done) := by
  rw [writeOnto?]
  simp [hv]

theorem writeOnto?_literal {v : Value} {width : Nat} (hv : values[i]? = none)
    (hnode : ix.nodes[i]? = some (literal v l width)) :
    ix.writeOnto? values (.node i :: rest) done =
      ix.writeOnto? values rest (v.operand.reverse ++ done) := by
  rw [writeOnto?]
  simp only [hv]
  split <;> simp_all

theorem writeOnto?_binary {k : Nat} {e f : Expr} (hv : values[i]? = none)
    (hnode : ix.nodes[i]? = some (binary op left right l))
    (hoperands : ix.operands? i = some (j, k)) (hleft : ix.nodes[j]? = some e)
    (hright : ix.nodes[k]? = some f) :
    ix.writeOnto? values (.node i :: rest) done =
      ix.writeOnto? values
        (Piece.operand (decide (e.bindingIn values j < op.precedence)) j
          (.chars [' ', op.symbol, ' '] ::
            Piece.operand (decide (f.bindingIn values k ≤ op.precedence)) k rest)) done := by
  rw [writeOnto?]
  simp only [hv]
  split
  · simp_all
  · simp_all
  · split
    · simp_all
    · simp_all

theorem writeOnto?_chars (cs : List Char) :
    ix.writeOnto? values (.chars cs :: rest) done =
      ix.writeOnto? values rest (cs.reverse ++ done) := by
  rw [writeOnto?]

/-- An operand is written as its node is, in parentheses if they are needed. -/
theorem writeOnto?_operand {cs : List Char} (needed : Bool)
    (hnode : ∀ rest done, ix.writeOnto? values (.node i :: rest) done =
      ix.writeOnto? values rest (cs.reverse ++ done)) :
    ix.writeOnto? values (Piece.operand needed i rest) done =
      ix.writeOnto? values rest ((enclose needed cs).reverse ++ done) := by
  cases needed with
  | false => exact hnode rest done
  | true =>
      rw [Piece.operand, if_pos rfl, writeOnto?_chars, hnode, writeOnto?_chars]
      simp [enclose]

theorem writeOnto?_node (h : ix.Tabulates e) (hf : e.NodeAt 0 n f) (rest : List Piece)
    (done : List Char) :
    ix.writeOnto? values (.node n :: rest) done =
      ix.writeOnto? values rest ((f.rendered values n).reverse ++ done) := by
  induction f generalizing n rest done with
  | literal v l width =>
      cases hv : values[n]? with
      | some w => simp only [writeOnto?_value hv, rendered, hv]
      | none => simp only [writeOnto?_literal hv (h.node_iff.2 hf), rendered, hv]
  | binary op left right l ihl ihr =>
      cases hv : values[n]? with
      | some w => simp only [writeOnto?_value hv, rendered, hv]
      | none =>
          obtain ⟨hleft, hright⟩ := hf.operands
          rw [writeOnto?_binary hv (h.node_iff.2 hf) (h.operands?_eq hf) (h.node_iff.2 hleft)
              (h.node_iff.2 hright),
            writeOnto?_operand _ (fun rest done => ihl hleft rest done), writeOnto?_chars,
            writeOnto?_operand _ (fun rest done => ihr hright rest done)]
          simp [rendered, hv]

theorem render?_eq (h : ix.Tabulates e) (values : Resolved) :
    ix.render? values = some (e.render values) := by
  rw [render?, writeOnto?_node h (.root e 0), writeOnto?, render_eq]
  simp

end Writing

/-- The index agrees with the expression in every respect: the nodes, what the tables say of
them, and the traversals, each of which has a result. -/
structure Agrees (ix : Index) (e : Expr) : Prop where
  nodes : ix.nodes.toList = e.preorder
  node_iff : ∀ i f, ix.nodes[i]? = some f ↔ e.NodeAt 0 i f
  depth_iff : ∀ i d, ix.depths[i]? = some d ↔ e.Distance i d
  cells : ∀ i, i < ix.count → ∃ f d, e.NodeAt 0 i f ∧ ix.spans[i]? = some f.span ∧
    ix.depths[i]? = some d
  count : ix.count = e.size
  operations : ix.operations = e.operations
  count_eq : ix.count = 2 * ix.operations + 1
  operands : ∀ i op left right l, e.NodeAt 0 i (binary op left right l) →
    ∃ j k, ix.operands? i = some (j, k) ∧ e.NodeAt 0 j left ∧ e.NodeAt 0 k right ∧
      j < ix.count ∧ k < ix.count ∧ [j, k, i].Sublist e.postOrder
  postOrder : ix.postOrder? = some e.postOrder.toArray
  postOrder_perm : e.postOrder.Perm (List.range ix.count)
  eval : ix.eval? = some e.eval
  render : ∀ values, ix.render? values = some (e.render values)

theorem Tabulates.agrees (h : ix.Tabulates e) : ix.Agrees e := by
  constructor
  case nodes => exact h.nodes
  case node_iff => exact fun _ _ => h.node_iff
  case depth_iff => exact h.depth
  case cells =>
    intro i hi
    rw [h.count_eq] at hi
    obtain ⟨f, hf⟩ := exists_nodeAt (Nat.zero_le i) (by omega : i < 0 + e.size)
    obtain ⟨d, hd⟩ := exists_distance hi
    exact ⟨f, d, hf, h.span i f hf, (h.depth i d).2 hd⟩
  case count => exact h.count_eq
  case operations => exact h.operations_eq
  case count_eq => rw [h.count_eq, h.operations_eq, size_eq]
  case operands =>
    intro i op left right l hnode
    obtain ⟨hleft, hright⟩ := hnode.operands
    have hlt : ∀ {j f}, e.NodeAt 0 j f → j < ix.count := by
      intro j f hj
      have := hj.lt
      have := h.count_eq
      omega
    exact ⟨_, _, h.operands?_eq hnode, hleft, hright, hlt hleft, hlt hright,
      hnode.operands_sublist_postOrder⟩
  case postOrder => exact postOrder?_eq h
  case postOrder_perm =>
    rw [h.count_eq, List.range_eq_range']
    exact postOrderFrom_perm 0 e
  case eval => exact eval?_eq h
  case render => exact render?_eq h

/-- Every expression has an index, and it agrees with the expression. -/
theorem index_agrees_with_tree (e : Expr) : ∃ ix, ofExpr? e = some ix ∧ ix.Agrees e := by
  obtain ⟨ix, hix, htabulates⟩ := exists_ofExpr? e
  exact ⟨ix, hix, htabulates.agrees⟩

end Index

end StepCalc
