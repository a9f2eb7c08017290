import StepCalc.Op
import StepCalc.Source.Location
import StepCalc.Value

/-!
# Expressions

Binary trees over integer literals. A literal keeps the place and the width, in
characters, of the digits it was read from; an operator node keeps the place of
its operator. Nodes are numbered in pre-order from zero: the left operand of
node `n` is node `n + 1`, and its right operand comes after all of the left one.
-/

namespace StepCalc

inductive Expr where
  | literal (value : Value) (location : Location) (width : Nat)
  | binary (op : Op) (left right : Expr) (location : Location)
  deriving DecidableEq, Repr

namespace Expr

/-- The number of nodes. -/
def size : Expr → Nat
  | literal .. => 1
  | binary _ left right _ => left.size + right.size + 1

/-- The number of operator nodes. -/
def operations : Expr → Nat
  | literal .. => 0
  | binary _ left right _ => left.operations + right.operations + 1

/-- The distance from the root to the deepest node. -/
def height : Expr → Nat
  | literal .. => 0
  | binary _ left right _ => max left.height right.height + 1

def location : Expr → Location
  | literal _ l _ => l
  | binary _ _ _ l => l

/-- The offset of the leftmost literal. -/
def firstOffset : Expr → Nat
  | literal _ l _ => l.offset
  | binary _ left _ _ => left.firstOffset

/-- The offset just after the rightmost literal. -/
def lastOffset : Expr → Nat
  | literal _ l width => l.offset + width
  | binary _ _ right _ => right.lastOffset

/-- The characters from the leftmost literal to the rightmost one; parentheses
around the expression are not part of it. -/
def span (e : Expr) : Span :=
  ⟨e.firstOffset, e.lastOffset⟩

theorem size_eq (e : Expr) : e.size = 2 * e.operations + 1 := by
  induction e with
  | literal => rfl
  | binary op left right l ihl ihr => simp only [size, operations, ihl, ihr]; omega

theorem size_pos (e : Expr) : 0 < e.size := by
  rw [size_eq]
  omega

end Expr

end StepCalc
