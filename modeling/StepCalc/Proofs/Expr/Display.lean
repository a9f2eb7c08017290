import StepCalc.Proofs.Expr.Arithmetic
import StepCalc.Proofs.Expr.Bare
import StepCalc.Proofs.Expr.Substitution

/-!
# Writing as substitution

An expression in which some nodes have values is written like the expression that has those
values in the place of their nodes. `Expr.Becomes` says by node numbers what that expression
is: a value counts only if no node above its own has one. `Expr.display` writes an expression
operand by operand and says of each pair of operators whether parentheses stand between them.
-/

namespace StepCalc

section Display

/-- `text` in parentheses, if they are needed. -/
def parenthesize (needed : Bool) (text : String) : String :=
  if needed then "(" ++ text ++ ")" else text

namespace Expr

/-- The expression is an operator that binds looser than `op`. -/
def looserThan (op : Op) : Expr → Bool
  | literal .. => false
  | binary op' _ _ _ => decide (op'.precedence < op.precedence)

/-- The expression is an operator that binds no tighter than `op`. -/
def noTighterThan (op : Op) : Expr → Bool
  | literal .. => false
  | binary op' _ _ _ => decide (op'.precedence ≤ op.precedence)

def display : Expr → String
  | literal v _ _ => parenthesize (decide (v.toInt < 0)) (toString v.toInt)
  | binary op left right _ =>
      parenthesize (left.looserThan op) left.display ++ " " ++ op.symbol.toString ++ " " ++
        parenthesize (right.noTighterThan op) right.display

end Expr

theorem toList_parenthesize (needed : Bool) (text : String) :
    (parenthesize needed text).toList = enclose needed text.toList := by
  cases needed with
  | false => rfl
  | true => simp [parenthesize, enclose]

namespace Expr

theorem decide_binding_lt (op : Op) (e : Expr) :
    decide (e.binding < op.precedence) = e.looserThan op := by
  cases e with
  | literal => cases op <;> rfl
  | binary => rfl

theorem decide_binding_le (op : Op) (e : Expr) :
    decide (e.binding ≤ op.precedence) = e.noTighterThan op := by
  cases e with
  | literal => cases op <;> rfl
  | binary => rfl

theorem toList_display (e : Expr) (n : Nat) : e.display.toList = e.rendered ∅ n := by
  induction e generalizing n with
  | literal v l width =>
      have hchars : (toString v.toInt).toList = v.chars := by
        rw [← Value.text_eq_toString, Value.text, String.toList_ofList]
      rw [display, toList_parenthesize, hchars]
      rfl
  | binary op left right l ihl ihr =>
      simp only [rendered, Std.TreeMap.getElem?_emptyc, bindingIn_empty, decide_binding_lt,
        decide_binding_le, ← ihl (n + 1), ← ihr (n + 1 + left.size), ← toList_parenthesize]
      simp [display]

theorem text_eq_display (e : Expr) : e.text = e.display := by
  rw [text, render_eq, ← toList_display, String.ofList_toList]

/-- Places and widths are not written. -/
theorem display_bare (e : Expr) : e.bare.display = e.display := by
  have hlooser : ∀ (op : Op) (e : Expr), e.bare.looserThan op = e.looserThan op := by
    intro op e
    cases e <;> rfl
  have hnoTighter : ∀ (op : Op) (e : Expr), e.bare.noTighterThan op = e.noTighterThan op := by
    intro op e
    cases e <;> rfl
  induction e with
  | literal => rfl
  | binary op left right l ihl ihr => simp only [bare, display, hlooser, hnoTighter, ihl, ihr]

theorem text_eq_of_bare_eq {e f : Expr} (h : e.bare = f.bare) : e.text = f.text := by
  rw [text_eq_display, text_eq_display, ← display_bare, h, display_bare]

end Expr

end Display

namespace Expr

variable {e f g : Expr} {values : Resolved} {m n i j : Nat}

/-- With the given values in place, node `n` of `e` becomes `f`. A node with a value becomes
a literal if no node above it has a value; a node without one stays what it is. -/
inductive Becomes (e : Expr) (values : Resolved) : Nat → Expr → Prop
  | value {n : Nat} {g : Expr} {v : Value} (l : Location) (width : Nat) (node : e.NodeAt 0 n g)
      (resolved : values[n]? = some v) (outermost : ∀ m, e.Above m n → values[m]? = none) :
      Becomes e values n (literal v l width)
  | literal {n : Nat} {v : Value} {l : Location} {width : Nat}
      (node : e.NodeAt 0 n (literal v l width)) (unresolved : values[n]? = none) :
      Becomes e values n (literal v l width)
  | operator {n i j : Nat} {op : Op} {left right f g : Expr} {l : Location}
      (node : e.NodeAt 0 n (binary op left right l)) (unresolved : values[n]? = none)
      (operands : e.operands n = some (i, j)) (hleft : Becomes e values i f)
      (hright : Becomes e values j g) : Becomes e values n (binary op f g l)

theorem becomes_substitute (h : e.NodeAt 0 n f)
    (houtermost : ∀ m, e.Above m n → values[m]? = none) :
    e.Becomes values n (f.substitute values n) := by
  induction f generalizing n with
  | literal v l width =>
      unfold substitute
      cases hvalue : values[n]? with
      | some w => exact .value _ _ h hvalue houtermost
      | none => exact .literal h hvalue
  | binary op left right l ihl ihr =>
      unfold substitute
      cases hvalue : values[n]? with
      | some w => exact .value _ _ h hvalue houtermost
      | none =>
          have hoperand : ∀ i, e.IsOperand n i → ∀ m, e.Above m i → values[m]? = none := by
            intro i hi m hm
            rcases eq_or_above_of_above_operand hi hm with rfl | hm
            · exact hvalue
            · exact houtermost m hm
          have hoperands : e.operands n = some (n + 1, n + 1 + left.size) :=
            operands_eq_some_iff.2 ⟨op, left, right, l, h, rfl, rfl⟩
          refine .operator h hvalue hoperands (ihl h.operands.1 ?_) (ihr h.operands.2 ?_)
          · exact hoperand _ ⟨_, _, hoperands, .inl rfl⟩
          · exact hoperand _ ⟨_, _, hoperands, .inr rfl⟩

/-- A node becomes one expression only, but for the places and widths of the values. -/
theorem Becomes.bare_eq (h : e.Becomes values n f) (hg : e.NodeAt 0 n g) :
    f.bare = (g.substitute values n).bare := by
  induction h generalizing g with
  | value l width node resolved outermost =>
      unfold substitute
      simp only [resolved]
      rfl
  | literal node unresolved =>
      obtain rfl := node.unique hg
      simp only [substitute, unresolved]
  | operator node unresolved operands hleft hright ihl ihr =>
      obtain rfl := node.unique hg
      obtain ⟨op, left, right, l, hnode, rfl, rfl⟩ := operands_eq_some_iff.1 operands
      cases node.unique hnode
      simp only [substitute, unresolved, bare, ihl hg.operands.1, ihr hg.operands.2]

/-- To write an expression with values at some of its nodes is to write the expression that
has the outermost of these values in the place of their nodes; and an expression is written
operand by operand. Numbers of nodes below others with a value, or of no node, are ignored. -/
theorem render_prints_replaced (e : Expr) (values : Resolved) :
    (∃ f, e.Becomes values 0 f) ∧ (∀ f, e.Becomes values 0 f → e.render values = f.text) ∧
      e.text = e.display := by
  have hroot : e.NodeAt 0 0 e := .root e 0
  refine ⟨⟨_, becomes_substitute hroot ?_⟩, fun f hf => ?_, e.text_eq_display⟩
  · intro m hm
    obtain ⟨-, -, hlt, -⟩ := above_iff.1 hm
    exact absurd hlt (Nat.not_lt_zero m)
  · calc
      e.render values = (e.substitute values 0).text := (e.text_substitute values).symm
      _ = f.text := (text_eq_of_bare_eq (hf.bare_eq hroot)).symm

/-- The expression `(2 - 5) * 3`. -/
def scaledDifference : Expr :=
  binary .mul (binary .sub (literal 2 .start 1) (literal 5 .start 1) .start) (literal 3 .start 1)
    .start

/-- Values for the difference, for an operand of it and for no node at all. -/
def overlappingValues : Resolved :=
  ((Std.TreeMap.empty.insert 1 (-3)).insert 2 7).insert 9 0

/-- Only the value of the difference is written. -/
theorem render_prints_replaced_difference :
    ∃ f, scaledDifference.Becomes overlappingValues 0 f ∧
      scaledDifference.render overlappingValues = f.text ∧ f.text = "(-3) * 3" := by
  have htext : scaledDifference.render overlappingValues = "(-3) * 3" := by decide +kernel
  obtain ⟨⟨f, hf⟩, hrender, -⟩ := render_prints_replaced scaledDifference overlappingValues
  exact ⟨f, hf, hrender f hf, (hrender f hf).symm.trans htext⟩

end Expr

end StepCalc
