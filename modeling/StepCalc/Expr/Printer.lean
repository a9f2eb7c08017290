import StepCalc.Expr.Basic
import Std.Data.TreeMap

/-!
# Writing expressions

An operator is written with a blank on either side, and an operand is put in
parentheses only where it would otherwise be read differently: a left operand
that binds looser than its operator, a right operand that does not bind tighter.
A negative value always stands in parentheses.

`Expr.render` writes an expression in which some nodes, named by their numbers,
already have values. `Expr.renderOnto` writes from left to right and counts the
nodes on its way, so the work is linear in the expression; `renderOnto_eq` says
what it writes without the counting.
-/

namespace StepCalc

/-- Values by node number. -/
abbrev Resolved := Std.TreeMap Nat Value

/-- `cs` in parentheses, if they are needed. -/
def enclose (needed : Bool) (cs : List Char) : List Char :=
  if needed then '(' :: (cs ++ [')']) else cs

/-- A value as an operand. -/
def Value.operand (v : Value) : List Char :=
  enclose (decide (v.toInt < 0)) v.chars

namespace Expr

/-- How tightly an expression holds together; literals more than any operator. -/
def binding : Expr → Nat
  | literal .. => 3
  | binary op .. => op.precedence

/-- The binding of node `n`; a node with a value counts as a literal. -/
def bindingIn (values : Resolved) (n : Nat) (e : Expr) : Nat :=
  if values.contains n then 3 else e.binding

/-- The text of `e`, whose root is node `n`. -/
def rendered (values : Resolved) (n : Nat) (e : Expr) : List Char :=
  match values[n]? with
  | some v => v.operand
  | none =>
    match e with
    | literal v _ _ => v.operand
    | binary op left right _ =>
      let m := n + 1 + left.size
      enclose (decide (left.bindingIn values (n + 1) < op.precedence))
          (left.rendered values (n + 1)) ++
        [' ', op.symbol, ' '] ++
        enclose (decide (right.bindingIn values m ≤ op.precedence)) (right.rendered values m)

/-- Writes `e`, whose root is node `n`, behind `done`, which lists the characters
written so far with the latest first. Also gives the number of the node after `e`. -/
def renderOnto (values : Resolved) (n : Nat) (e : Expr) (done : List Char) : List Char × Nat :=
  match values[n]? with
  | some v => (v.operand.reverse ++ done, n + e.size)
  | none =>
    match e with
    | literal v _ _ => (v.operand.reverse ++ done, n + 1)
    | binary op left right _ =>
      let (done, m) :=
        if left.bindingIn values (n + 1) < op.precedence then
          let (done, m) := left.renderOnto values (n + 1) ('(' :: done)
          (')' :: done, m)
        else left.renderOnto values (n + 1) done
      let done := ' ' :: op.symbol :: ' ' :: done
      if right.bindingIn values m ≤ op.precedence then
        let (done, k) := right.renderOnto values m ('(' :: done)
        (')' :: done, k)
      else right.renderOnto values m done

/-- The text of `e` with the given nodes replaced by their values. -/
def render (values : Resolved) (e : Expr) : String :=
  String.ofList (e.renderOnto values 0 []).1.reverse

def text (e : Expr) : String :=
  e.render ∅

theorem renderOnto_eq (values : Resolved) (n : Nat) (e : Expr) (done : List Char) :
    e.renderOnto values n done = ((e.rendered values n).reverse ++ done, n + e.size) := by
  induction e generalizing n done with
  | literal v l width =>
    unfold renderOnto rendered
    cases values[n]? <;> rfl
  | binary op left right l ihl ihr =>
    unfold renderOnto rendered
    cases values[n]? with
    | some v => rfl
    | none =>
      by_cases hl : left.bindingIn values (n + 1) < op.precedence <;>
      by_cases hr : right.bindingIn values (n + 1 + left.size) ≤ op.precedence <;>
      simp [hl, hr, ihl, ihr, enclose, size] <;> omega

theorem render_eq (values : Resolved) (e : Expr) :
    e.render values = String.ofList (e.rendered values 0) := by
  simp [render, renderOnto_eq]

end Expr

end StepCalc
