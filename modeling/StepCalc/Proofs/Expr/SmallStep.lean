import StepCalc.Proofs.Expr.Progress

/-!
# Evaluation in small steps

A step replaces the leftmost operator whose operands are both literals by its value, or
fails as that operator does. Reducing the operators of an expression in the order of
evaluation makes just these steps: the next operator to be reduced is always the leftmost
one that has two literals.
-/

namespace StepCalc

namespace Expr

/-- The value of a literal. -/
def value? : Expr → Option Value
  | literal v _ _ => some v
  | binary .. => none

/-- An operator with two literals. -/
structure Redex where
  op : Op
  left : Value
  right : Value
  location : Location
  deriving DecidableEq, Repr

def Redex.eval (r : Redex) : Except EvalError Value :=
  r.op.apply r.left r.right r.location

/-- The leftmost operator with two literals. -/
def redex? : Expr → Option Redex
  | literal .. => none
  | binary op left right l =>
    match left.value?, right.value? with
    | some a, some b => some ⟨op, a, b, l⟩
    | _, _ => left.redex?.or right.redex?

/-- The expression with `v` in the place of the leftmost operator with two literals. -/
def contract (v : Value) : Expr → Expr
  | literal w l width => literal w l width
  | binary op left right l =>
    match left.value?, right.value? with
    | some _, some _ => literal v l 1
    | _, _ =>
      if left.redex?.isSome then binary op (left.contract v) right l
      else binary op left (right.contract v) l

/-- One step of evaluation, if there is an operator left. -/
def step? (e : Expr) : Option (Except EvalError Expr) :=
  e.redex?.map fun r => r.eval.map fun v => e.contract v

variable {e f left right : Expr} {op : Op} {l : Location} {a b : Value} {k : Nat}

theorem step?_literals (op : Op) (l : Location) (a b : Value) (la lb : Location) (wa wb : Nat) :
    (binary op (literal a la wa) (literal b lb wb) l).step? =
      some ((op.apply a b l).map fun v => literal v l 1) := rfl

theorem value?_of_redex? {r : Redex} (h : e.redex? = some r) : e.value? = none := by
  cases e with
  | literal => cases h
  | binary => rfl

/-- A step of the left operand is one of the whole. -/
theorem step?_binary_left {x : Except EvalError Expr} (h : left.step? = some x) :
    (binary op left right l).step? = some (x.map fun left => binary op left right l) := by
  obtain ⟨r, hr, rfl⟩ := Option.map_eq_some_iff.1 h
  have hvalue := value?_of_redex? hr
  have hredex : (binary op left right l).redex? = some r := by
    rw [redex?, hvalue, hr]
    rfl
  have hcontract : ∀ v, (binary op left right l).contract v =
      binary op (left.contract v) right l := by
    intro v
    rw [contract, hvalue, hr]
    rfl
  rw [step?, hredex]
  simp only [Option.map_some, hcontract]
  cases r.eval <;> rfl

/-- Once the left operand is a literal, so is a step of the right one. -/
theorem step?_binary_right {x : Except EvalError Expr} {la : Location} {wa : Nat}
    (h : right.step? = some x) :
    (binary op (literal a la wa) right l).step? =
      some (x.map fun right => binary op (literal a la wa) right l) := by
  obtain ⟨r, hr, rfl⟩ := Option.map_eq_some_iff.1 h
  have hvalue := value?_of_redex? hr
  have hredex : (binary op (literal a la wa) right l).redex? = some r := by
    rw [redex?, hvalue, hr]
    rfl
  have hcontract : ∀ v, (binary op (literal a la wa) right l).contract v =
      binary op (literal a la wa) (right.contract v) l := by
    intro v
    rw [contract, hvalue]
    rfl
  rw [step?, hredex]
  simp only [Option.map_some, hcontract]
  cases r.eval <;> rfl

/-- The step after `k` reductions is that of operator number `k`. -/
theorem step?_reduced (h : e.Attains k) (hf : e.operators[k]? = some f) :
    (e.reduced k).step? = some (f.eval.map fun _ => e.reduced (k + 1)) := by
  induction e generalizing k with
  | literal => simp [operators] at hf
  | binary op left right l ihl ihr =>
      have hk := lt_of_getElem?_operators hf
      rw [reduced_of_lt hk]
      rcases getElem?_operators_cases hf with hleft | ⟨j, rfl, hright⟩ | ⟨rfl, rfl⟩
      · -- The left operand is not a value yet, and the right one is untouched.
        have hlt := lt_of_getElem?_operators hleft
        have hk' : k + 1 < (binary op left right l).operations := by
          simp only [operations]
          omega
        rw [step?_binary_left (ihl (attains_left h) hleft), reduced_of_lt hk',
          Nat.sub_eq_zero_of_le (Nat.le_of_lt hlt), Nat.sub_eq_zero_of_le hlt]
        cases f.eval <;> rfl
      · have hlt := lt_of_getElem?_operators hright
        have hk' : left.operations + j + 1 < (binary op left right l).operations := by
          simp only [operations]
          omega
        have hattains : right.Attains j := by
          have := attains_right h
          rwa [Nat.add_sub_cancel_left] at this
        obtain ⟨a, ha⟩ := exists_eval_of_attains (attains_left h) (Nat.le_add_right _ _)
        obtain ⟨la, wa, hliteral⟩ := exists_reduced_eq_literal ha
        rw [reduced_of_lt hk', hliteral _ (by omega), hliteral _ (by omega),
          Nat.add_assoc, Nat.add_sub_cancel_left, Nat.add_sub_cancel_left,
          step?_binary_right (ihr hattains hright)]
        cases f.eval <;> rfl
      · -- Both operands are values, so it is the turn of the root.
        obtain ⟨a, ha⟩ := exists_eval_of_attains (attains_left h) (Nat.le_add_right _ _)
        obtain ⟨b, hb⟩ := exists_eval_of_attains (attains_right h) (by omega)
        obtain ⟨la, wa, hleft⟩ := exists_reduced_eq_literal ha
        obtain ⟨lb, wb, hright⟩ := exists_reduced_eq_literal hb
        have heval : (binary op left right l).eval = op.apply a b l := by
          simp [eval, ha, hb]
        rw [hleft _ (Nat.le_add_right _ _), hright _ (by omega), step?_literals, heval]
        cases happly : op.apply a b l with
        | error err => rfl
        | ok v =>
            have hroot : (binary op left right l).reduced (left.operations + right.operations + 1) =
                literal v l 1 := reduced_of_eval (heval.trans happly) (Nat.le_refl _)
            rw [hroot]
            rfl

end Expr

end StepCalc
