import StepCalc.Expr.Outline
import StepCalc.Expr.Printer
import StepCalc.View.Window

/-!
# The tree pane

The expression as an indented outline, one line for each node in the order of
their numbers. An operator shows its place and, once reduced, its value; the
node reduced last is on a ground of its own.
-/

namespace StepCalc

structure TreePane where
  outline : Array Entry
  values : Resolved
  current : Option Nat

namespace TreePane

/-- Nodes further down are not indented any more. -/
def maxIndent : Nat := 32

@[inline] def offset (p : TreePane) (w : Window) : Nat :=
  w.clamp p.outline.size

/-- What stands behind the indentation of node `n`. -/
def label (p : TreePane) (n : Nat) (e : Expr) : Line :=
  match e with
  | .literal v _ _ => Line.ofString (.color Palette.number) v.text
  | .binary op _ _ l =>
    Line.ofString (Style.color Palette.operator).strong (String.singleton op.symbol) ++
      Line.ofString (.color Palette.comment) s!"  @{l.line}:{l.column}" ++
      match p.values[n]? with
      | some v => Line.ofString (.color Palette.resolved) s!"  = {v.text}"
      | none => []

/-- The line of node `n`. -/
def line (p : TreePane) (entry : Entry) (n : Nat) : Line :=
  let indent := List.replicate (2 * min entry.depth maxIndent) (.ofChar ' ' (.color Palette.comment))
  let ground : Style := if p.current = some n then Style.plain.onto Palette.currentLine else .plain
  Line.onGround ground (indent ++ p.label n entry.node)

/-- The lines of `n` nodes, from node number `first` on. -/
def shown (p : TreePane) (first n : Nat) : List Line :=
  (p.outline.extract first (first + n)).toList.zipIdx first |>.map fun (entry, i) => p.line entry i

def draw (p : TreePane) (w : Window) (s : Screen) : Screen :=
  Paragraph.draw { lines := p.shown (p.offset w) w.visible } (w.inner s)
    (w.frame " Tree " s)

end TreePane

end StepCalc
