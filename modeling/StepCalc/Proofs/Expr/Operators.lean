import StepCalc.Expr.Eval

/-!
# Operators in the order of evaluation

The operators of an expression, each after those of its operands. An expression
has a value exactly if all of its operators have one; otherwise it fails as the
first operator does that has none.
-/

namespace StepCalc

namespace Expr

/-- The operator nodes, operands before operators and left before right, each as the
expression it is the root of. -/
def operators : Expr → List Expr
  | literal .. => []
  | binary op left right l => left.operators ++ right.operators ++ [binary op left right l]

@[simp] theorem length_operators (e : Expr) : e.operators.length = e.operations := by
  induction e with
  | literal => rfl
  | binary op left right l ihl ihr =>
      simp only [operators, operations, List.length_append, List.length_singleton, ihl, ihr]

theorem lt_of_getElem?_operators {e f : Expr} {k : Nat} (h : e.operators[k]? = some f) :
    k < e.operations := by
  rw [← length_operators]
  exact (List.getElem?_eq_some_iff.1 h).1

/-- Where the operator with number `k` stands. -/
theorem getElem?_operators_cases {op : Op} {left right f : Expr} {l : Location} {k : Nat}
    (h : (binary op left right l).operators[k]? = some f) :
    left.operators[k]? = some f ∨
      (∃ j, k = left.operations + j ∧ right.operators[j]? = some f) ∨
        k = left.operations + right.operations ∧ f = binary op left right l := by
  have hk := lt_of_getElem?_operators h
  rw [operators, List.append_assoc] at h
  by_cases hleft : k < left.operations
  · rw [List.getElem?_append_left (by simpa using hleft)] at h
    exact .inl h
  · obtain ⟨j, rfl⟩ := Nat.exists_eq_add_of_le (Nat.le_of_not_lt hleft)
    rw [List.getElem?_append_right (by simp), length_operators, Nat.add_sub_cancel_left] at h
    by_cases hright : j < right.operations
    · rw [List.getElem?_append_left (by simpa using hright)] at h
      exact .inr (.inl ⟨j, rfl, h⟩)
    · obtain rfl : j = right.operations := by
        simp only [operations] at hk
        omega
      rw [List.getElem?_append_right (by simp), length_operators, Nat.sub_self] at h
      exact .inr (.inr ⟨rfl, (Option.some.inj h).symm⟩)

/-- The operators in `before` have values; the one after them has operands with
values, but fails on them with `err`. -/
def FailsAfter (e : Expr) (before : List Expr) (err : EvalError) : Prop :=
  ∃ op left right l after a b, e.operators = before ++ binary op left right l :: after ∧
    (∀ f ∈ before, ∃ v, f.eval = .ok v) ∧
    left.eval = .ok a ∧ right.eval = .ok b ∧ op.apply a b l = .error err

variable {op : Op} {left right : Expr} {l : Location} {before : List Expr} {err : EvalError}
  {a b v : Value}

theorem eval_binary_eq_ok_iff :
    (binary op left right l).eval = .ok v ↔
      ∃ a b, left.eval = .ok a ∧ right.eval = .ok b ∧ op.apply a b l = .ok v := by
  cases hleft : left.eval with
  | error err => simp [eval, hleft]
  | ok a =>
      cases hright : right.eval with
      | error err => simp [eval, hleft, hright]
      | ok b => simp [eval, hleft, hright]

/-- In an expression with a value every operator has one. -/
theorem exists_eval_of_mem_operators {e f : Expr} (h : e.eval = .ok v) (hf : f ∈ e.operators) :
    ∃ w, f.eval = .ok w := by
  induction e generalizing v with
  | literal => simp [operators] at hf
  | binary op left right l ihl ihr =>
      obtain ⟨a, b, ha, hb, -⟩ := eval_binary_eq_ok_iff.1 h
      simp only [operators, List.mem_append, List.mem_singleton] at hf
      rcases hf with (hf | hf) | rfl
      · exact ihl ha hf
      · exact ihr hb hf
      · exact ⟨v, h⟩

/-- A failure of the left operand is one of the whole. -/
theorem failsAfter_of_left (h : left.FailsAfter before err) :
    (binary op left right l).FailsAfter before err := by
  obtain ⟨op', left', right', l', after, a, b, hops, hrest⟩ := h
  exact ⟨op', left', right', l', _, a, b, by simp [operators, hops]; rfl, hrest⟩

/-- A failure of the right operand comes after all operators of the left one. -/
theorem failsAfter_of_right (hleft : left.eval = .ok a) (h : right.FailsAfter before err) :
    (binary op left right l).FailsAfter (left.operators ++ before) err := by
  obtain ⟨op', left', right', l', after, a', b', hops, hbefore, hrest⟩ := h
  refine ⟨op', left', right', l', _, a', b', by simp [operators, hops]; rfl, ?_, hrest⟩
  intro f hf
  rcases List.mem_append.1 hf with hf | hf
  · exact exists_eval_of_mem_operators hleft hf
  · exact hbefore f hf

/-- The operator at the root comes after all others. -/
theorem failsAfter_root (hleft : left.eval = .ok a) (hright : right.eval = .ok b)
    (happly : op.apply a b l = .error err) :
    (binary op left right l).FailsAfter (left.operators ++ right.operators) err := by
  refine ⟨op, left, right, l, [], a, b, rfl, ?_, hleft, hright, happly⟩
  intro f hf
  rcases List.mem_append.1 hf with hf | hf
  · exact exists_eval_of_mem_operators hleft hf
  · exact exists_eval_of_mem_operators hright hf

theorem eval_binary_eq_error_iff :
    (binary op left right l).eval = .error err ↔
      left.eval = .error err ∨
        (∃ a, left.eval = .ok a ∧ right.eval = .error err) ∨
          ∃ a b, left.eval = .ok a ∧ right.eval = .ok b ∧ op.apply a b l = .error err := by
  cases hleft : left.eval with
  | error err => simp [eval, hleft]
  | ok a =>
      cases hright : right.eval with
      | error err => simp [eval, hleft, hright]
      | ok b => simp [eval, hleft, hright]

theorem FailsAfter.exists_getElem? {e : Expr} (h : e.FailsAfter before err) :
    ∃ f, e.operators[before.length]? = some f ∧ f.eval = .error err := by
  obtain ⟨op, left, right, l, after, a, b, hops, -, hleft, hright, happly⟩ := h
  refine ⟨binary op left right l, ?_, ?_⟩
  · rw [hops, List.getElem?_append_right (Nat.le_refl _), Nat.sub_self]
    rfl
  · exact eval_binary_eq_error_iff.2 (.inr (.inr ⟨a, b, hleft, hright, happly⟩))

theorem exists_failsAfter {e : Expr} (h : e.eval = .error err) :
    ∃ before, e.FailsAfter before err := by
  induction e with
  | literal => simp [eval] at h
  | binary op left right l ihl ihr =>
      rcases eval_binary_eq_error_iff.1 h with
        hleft | ⟨a, hleft, hright⟩ | ⟨a, b, hleft, hright, happly⟩
      · obtain ⟨before, hfail⟩ := ihl hleft
        exact ⟨before, failsAfter_of_left hfail⟩
      · obtain ⟨before, hfail⟩ := ihr hright
        exact ⟨_, failsAfter_of_right hleft hfail⟩
      · exact ⟨_, failsAfter_root hleft hright happly⟩

end Expr

end StepCalc
