import StepCalc.Expr.Basic

/-!
# Outlines

The nodes of an expression as a flat array in pre-order, so that a node is found
by its number, each with its distance from the root. Operands and spans follow
from the numbering.
-/

namespace StepCalc

/-- A node: the expression it is the root of, and its distance from the top. -/
structure Entry where
  node : Expr
  depth : Nat
  deriving DecidableEq, Repr

namespace Expr

/-- The nodes of `e`, at distance `depth` from the top, in pre-order. -/
def entries (depth : Nat) (e : Expr) : List Entry :=
  match e with
  | literal .. => [⟨e, depth⟩]
  | binary _ left right _ => ⟨e, depth⟩ :: (left.entries (depth + 1) ++ right.entries (depth + 1))

/-- Adds the nodes of `e`, at distance `depth` from the top, to `entries`. -/
def outlineOnto (e : Expr) (depth : Nat) (entries : Array Entry) : Array Entry :=
  match e with
  | literal .. => entries.push ⟨e, depth⟩
  | binary _ left right _ =>
    right.outlineOnto (depth + 1) (left.outlineOnto (depth + 1) (entries.push ⟨e, depth⟩))

/-- The nodes in pre-order. -/
def outline (e : Expr) : Array Entry :=
  e.outlineOnto 0 #[]

/-- The numbers of the nodes of `e`, whose root is node `n`, operands before
operators, in front of `tail`. -/
def postOrderFrom (n : Nat) (e : Expr) (tail : List Nat) : List Nat :=
  match e with
  | literal .. => n :: tail
  | binary _ left right _ =>
    left.postOrderFrom (n + 1) (right.postOrderFrom (n + 1 + left.size) (n :: tail))

/-- All node numbers in the order of evaluation. -/
def postOrder (e : Expr) : List Nat :=
  e.postOrderFrom 0 []

/-- The numbers of the operands of `e`, whose root is node `n`. -/
def operandsFrom (n : Nat) : Expr → Option (Nat × Nat)
  | literal .. => none
  | binary _ left _ _ => some (n + 1, n + 1 + left.size)

/-- The numbers of the operands of node `n`, if it is an operator. -/
def operands (e : Expr) (n : Nat) : Option (Nat × Nat) :=
  e.outline[n]?.bind fun entry => entry.node.operandsFrom n

@[simp] theorem length_entries (depth : Nat) (e : Expr) : (e.entries depth).length = e.size := by
  induction e generalizing depth with
  | literal => rfl
  | binary op left right l ihl ihr => simp [entries, size, ihl, ihr]

theorem outlineOnto_eq (e : Expr) (depth : Nat) (done : Array Entry) :
    e.outlineOnto depth done = done ++ (e.entries depth).toArray := by
  induction e generalizing depth done with
  | literal => simp [outlineOnto, entries]
  | binary op left right l ihl ihr =>
    simp only [outlineOnto, entries, ihl, ihr]
    apply Array.toList_inj.1
    simp

@[simp] theorem toList_outline (e : Expr) : e.outline.toList = e.entries 0 := by
  simp [outline, outlineOnto_eq]

@[simp] theorem size_outline (e : Expr) : e.outline.size = e.size := by
  rw [← Array.length_toList, toList_outline, length_entries]

theorem postOrderFrom_append (n : Nat) (e : Expr) (tail : List Nat) :
    e.postOrderFrom n tail = e.postOrderFrom n [] ++ tail := by
  induction e generalizing n tail with
  | literal => rfl
  | binary op left right l ihl ihr =>
    simp only [postOrderFrom]
    rw [ihl, ihr, ihl (n + 1) (right.postOrderFrom _ [n]), ihr _ [n]]
    simp

end Expr

end StepCalc
