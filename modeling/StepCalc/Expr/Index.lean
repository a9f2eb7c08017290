import StepCalc.Expr.Eval
import StepCalc.Expr.Printer

/-!
# Flat trees

An index has the nodes of an expression by their numbers, with the size, the span and the
depth of each in tables of their own. Operands have larger numbers than their operator, so
sizes and spans are filled from the last node to the first, and depths from the first to
the last. Traversals keep what is left to do on a stack.

Every access to a table is checked: a function here has no result if a number is ever out
of range.
-/

namespace StepCalc

/-- Sets cell `i`, if there is one. -/
def write? {α : Type} (cells : Array α) (i : Nat) (x : α) : Option (Array α) :=
  if h : i < cells.size then some (cells.set i x h) else none

structure Index where
  nodes : Array Expr
  sizes : Array Nat
  spans : Array Span
  depths : Array Nat
  deriving DecidableEq, Repr

namespace Index

/-- The number of nodes of all expressions on a stack. -/
def forestSize : List Expr → Nat
  | [] => 0
  | e :: rest => e.size + forestSize rest

/-- Adds the nodes of the expressions on the stack to `done`, each before its operands. -/
def collect (done : Array Expr) (stack : List Expr) : Array Expr :=
  match stack with
  | [] => done
  | .literal v l width :: rest => collect (done.push (.literal v l width)) rest
  | .binary op left right l :: rest =>
    collect (done.push (.binary op left right l)) (left :: right :: rest)
termination_by forestSize stack
decreasing_by
  all_goals simp only [forestSize, Expr.size]; omega

/-- Fills the cells of node `i` in the tables of sizes and spans. An operator takes them
from its operands; the size of a literal is there from the start. -/
def measure? (nodes : Array Expr) (cells : Array Nat × Array Span) (i : Nat) :
    Option (Array Nat × Array Span) := do
  let (sizes, spans) := cells
  match ← nodes[i]? with
  | .literal _ l width =>
    let spans ← write? spans i ⟨l.offset, l.offset + width⟩
    return (sizes, spans)
  | .binary .. =>
    let left := i + 1
    let leftSize ← sizes[left]?
    let right := left + leftSize
    let rightSize ← sizes[right]?
    let first ← spans[left]?
    let last ← spans[right]?
    let sizes ← write? sizes i (1 + leftSize + rightSize)
    let spans ← write? spans i ⟨first.start, last.stop⟩
    return (sizes, spans)

/-- Puts the operands of node `i` one level below it. -/
def deepen? (nodes : Array Expr) (sizes depths : Array Nat) (i : Nat) : Option (Array Nat) := do
  match ← nodes[i]? with
  | .literal .. => return depths
  | .binary .. =>
    let left := i + 1
    let leftSize ← sizes[left]?
    let depth ← depths[i]?
    let depths ← write? depths left (depth + 1)
    write? depths (left + leftSize) (depth + 1)

/-- The index of an expression: one pass over the nodes for the sizes and spans, and one
for the depths. -/
def ofExpr? (e : Expr) : Option Index := do
  let nodes := collect #[] [e]
  let count := nodes.size
  let (sizes, spans) ← (List.range count).reverse.foldlM (measure? nodes)
    (Array.replicate count 1, Array.replicate count ⟨0, 0⟩)
  let depths ← (List.range count).foldlM (deepen? nodes sizes) (Array.replicate count 0)
  return ⟨nodes, sizes, spans, depths⟩

/-- The number of nodes. -/
def count (ix : Index) : Nat :=
  ix.nodes.size

/-- The number of operators. -/
def operations (ix : Index) : Nat :=
  ix.nodes.countP fun e => e matches .binary ..

/-- The numbers of the operands of operator `i`. -/
def operands? (ix : Index) (i : Nat) : Option (Nat × Nat) :=
  ix.sizes[i + 1]?.map fun size => (i + 1, i + 1 + size)

section Traversal

/-- More than the steps that node `i` of `count` nodes can lead to: an operator stands for
less than eight entries on a stack, and its operands have larger numbers. -/
def effort (count i : Nat) : Nat :=
  Nat.pow 8 (count - i)

theorem effort_pos (count i : Nat) : 0 < effort count i :=
  Nat.pow_pos (by decide)

theorem effort_le (count : Nat) {i j : Nat} (h : i ≤ j) : effort count j ≤ effort count i :=
  Nat.pow_le_pow_right (by decide) (by omega)

theorem effort_eq {count i : Nat} (h : i < count) : effort count i = effort count (i + 1) * 8 := by
  have hsub : count - i = count - (i + 1) + 1 := by omega
  rw [effort, hsub]
  rfl

/-- Operands lead to less than their operator does. -/
theorem effort_operands {ix : Index} {i left right : Nat} {e : Expr}
    (hnode : ix.nodes[i]? = some e) (h : ix.operands? i = some (left, right)) :
    effort ix.count left + effort ix.count right + 6 ≤ effort ix.count i := by
  obtain ⟨size, -, hpair⟩ := Option.map_eq_some_iff.1 h
  obtain ⟨rfl, rfl⟩ := Prod.mk.inj hpair
  have hlt : i < ix.count := (Array.getElem?_eq_some_iff.1 hnode).1
  have hle : effort ix.count (i + 1 + size) ≤ effort ix.count (i + 1) := effort_le _ (by omega)
  have hpos := effort_pos ix.count (i + 1)
  rw [effort_eq hlt]
  omega

/-- A node to be visited, or to be listed after its operands have been. -/
inductive Visit where
  | enter (i : Nat)
  | leave (i : Nat)
  deriving DecidableEq, Repr

def Visit.effort (count : Nat) : List Visit → Nat
  | [] => 0
  | enter i :: rest => Index.effort count i + Visit.effort count rest
  | leave _ :: rest => 1 + Visit.effort count rest

/-- Lists the nodes on the stack behind those in `done`, operands before operators. -/
def order? (ix : Index) (stack : List Visit) (done : Array Nat) : Option (Array Nat) :=
  match stack with
  | [] => some done
  | .leave i :: rest => ix.order? rest (done.push i)
  | .enter i :: rest =>
    match _ : ix.nodes[i]? with
    | none => none
    | some (.literal ..) => ix.order? rest (done.push i)
    | some (.binary ..) =>
      match _ : ix.operands? i with
      | none => none
      | some (left, right) => ix.order? (.enter left :: .enter right :: .leave i :: rest) done
termination_by Visit.effort ix.count stack
decreasing_by
  · simp only [Visit.effort]; omega
  · have := effort_pos ix.count i
    simp only [Visit.effort]; omega
  · have := effort_operands ‹ix.nodes[i]? = _› ‹ix.operands? i = _›
    simp only [Visit.effort]; omega

/-- The node numbers in the order of evaluation. -/
def postOrder? (ix : Index) : Option (Array Nat) :=
  ix.order? [.enter 0] #[]

/-- Evaluates the nodes in the given order; `values` has the values found so far. -/
def evalIn? (ix : Index) (values : Array Value) : List Nat → Option (Except EvalError Value)
  | [] => values[0]?.map .ok
  | i :: rest => do
    match ← ix.nodes[i]? with
    | .literal v _ _ => ix.evalIn? (← write? values i v) rest
    | .binary op _ _ location =>
      let (left, right) ← ix.operands? i
      let a ← values[left]?
      let b ← values[right]?
      match op.apply a b location with
      | .error err => return .error err
      | .ok v => ix.evalIn? (← write? values i v) rest

def eval? (ix : Index) : Option (Except EvalError Value) := do
  let order ← ix.postOrder?
  ix.evalIn? (Array.replicate ix.count 0) order.toList

/-- A part of a text that is being written. -/
inductive Piece where
  | chars (cs : List Char)
  | node (i : Nat)
  deriving DecidableEq, Repr

def Piece.effort (count : Nat) : List Piece → Nat
  | [] => 0
  | chars _ :: rest => 1 + Piece.effort count rest
  | node i :: rest => Index.effort count i + Piece.effort count rest

/-- Node `i`, in parentheses if they are needed, in front of `rest`. -/
def Piece.operand (needed : Bool) (i : Nat) (rest : List Piece) : List Piece :=
  if needed then chars ['('] :: node i :: chars [')'] :: rest else node i :: rest

theorem Piece.effort_operand_le (count : Nat) (needed : Bool) (i : Nat) (rest : List Piece) :
    Piece.effort count (Piece.operand needed i rest) ≤
      Index.effort count i + 2 + Piece.effort count rest := by
  cases needed with
  | false =>
    simp only [operand, Bool.false_eq_true, if_false, Piece.effort]
    omega
  | true =>
    simp only [operand, if_true, Piece.effort]
    omega

/-- Writes the pieces behind `done`, which lists the characters written so far with the
latest first. -/
def writeOnto? (ix : Index) (values : Resolved) (pieces : List Piece) (done : List Char) :
    Option (List Char) :=
  match pieces with
  | [] => some done
  | .chars cs :: rest => ix.writeOnto? values rest (cs.reverse ++ done)
  | .node i :: rest =>
    match values[i]? with
    | some v => ix.writeOnto? values rest (v.operand.reverse ++ done)
    | none =>
      match _ : ix.nodes[i]? with
      | none => none
      | some (.literal v _ _) => ix.writeOnto? values rest (v.operand.reverse ++ done)
      | some (.binary op _ _ _) =>
        match _ : ix.operands? i with
        | none => none
        | some (left, right) =>
          match ix.nodes[left]?, ix.nodes[right]? with
          | some e, some f =>
            ix.writeOnto? values
              (Piece.operand (decide (e.bindingIn values left < op.precedence)) left
                (.chars [' ', op.symbol, ' '] ::
                  Piece.operand (decide (f.bindingIn values right ≤ op.precedence)) right rest))
              done
          | _, _ => none
termination_by Piece.effort ix.count pieces
decreasing_by
  · simp only [Piece.effort]; omega
  · have := effort_pos ix.count i
    simp only [Piece.effort]; omega
  · have := effort_pos ix.count i
    simp only [Piece.effort]; omega
  · have hoperands := effort_operands ‹ix.nodes[i]? = _› ‹ix.operands? i = _›
    refine Nat.lt_of_le_of_lt (Piece.effort_operand_le ..) ?_
    have hright := Piece.effort_operand_le ix.count
      (decide (f.bindingIn values right ≤ op.precedence)) right rest
    simp only [Piece.effort]
    omega

/-- The text of the expression with the given nodes replaced by their values. -/
def render? (ix : Index) (values : Resolved) : Option String := do
  let done ← ix.writeOnto? values [.node 0] []
  return String.ofList done.reverse

end Traversal

end Index

end StepCalc
