import StepCalc.Proofs.Expr.Progress

/-!
# Writing with values

To write an expression in which some nodes have values is to write the expression that has
these values in the place of the nodes. A node with a value is a literal there, so it binds
as one, and what lies below it is not written.
-/

namespace StepCalc

namespace Expr

@[simp] theorem bindingIn_empty (n : Nat) (e : Expr) : e.bindingIn ∅ n = e.binding := by
  simp [bindingIn]

theorem binding_substitute (values : Resolved) (n : Nat) (e : Expr) :
    (e.substitute values n).binding = e.bindingIn values n := by
  rw [bindingIn, Std.TreeMap.contains_eq_isSome_getElem?]
  unfold substitute
  cases values[n]? with
  | some v => rfl
  | none => cases e <;> rfl

/-- The numbers of the nodes play no part once the values are in place. -/
theorem rendered_substitute (values : Resolved) (n m : Nat) (e : Expr) :
    (e.substitute values n).rendered ∅ m = e.rendered values n := by
  induction e generalizing n m with
  | literal v l width =>
      unfold substitute
      cases hvalue : values[n]? <;> simp [rendered, hvalue]
  | binary op left right l ihl ihr =>
      unfold substitute
      cases hvalue : values[n]? with
      | some w => simp [rendered, hvalue]
      | none =>
          simp only [rendered, hvalue, Std.TreeMap.getElem?_emptyc, bindingIn_empty,
            binding_substitute, ihl, ihr]

theorem text_substitute (values : Resolved) (e : Expr) :
    (e.substitute values 0).text = e.render values := by
  rw [text, render_eq, render_eq, rendered_substitute]

end Expr

end StepCalc
