import StepCalc.History.Snapshot
import StepCalc.View.Window

/-!
# The trace pane

One row for each reduction made so far, the newest last, and one for the error
that stopped the evaluation. With neither there is only a remark, and the window
keeps its first row, whatever it is.
-/

namespace StepCalc

structure TracePane where
  reductions : List Reduction
  error : Option EvalError
  deriving DecidableEq, Repr

namespace TracePane

@[inline] def isEmpty (p : TracePane) : Bool :=
  p.reductions.isEmpty && p.error.isNone

/-- The number of rows. -/
@[inline] def total (p : TracePane) : Nat :=
  p.reductions.length + p.error.toList.length

@[inline] def offset (p : TracePane) (w : Window) : Nat :=
  if p.isEmpty then w.offset else w.clamp p.total

/-- The row of reduction number `i`, counted from zero. -/
def reductionRow (p : TracePane) (r : Reduction) (i : Nat) : Row :=
  { text := s!"#{Text.padRight 3 (toString (i + 1))} {r.describe}"
    style := if i + 1 = p.reductions.length then (Style.color Palette.resolved).strong
      else .color Palette.text }

def errorRow (e : EvalError) : Row :=
  { text := s!"error: {e.message}", style := .color Palette.error }

/-- The rows in a window that is `n` rows high: reductions from the first row on,
and the error if there is still room for it. -/
def shown (p : TracePane) (first n : Nat) : List Row :=
  let rows := ((p.reductions.drop first).take n).zipIdx first |>.map fun (r, i) =>
    p.reductionRow r i
  if rows.length < n then rows ++ p.error.toList.map errorRow else rows

/-- What stands in place of rows when there are none. -/
def remark : Line :=
  Line.ofString .plain "(nothing reduced yet)"

def draw (p : TracePane) (w : Window) (s : Screen) : Screen :=
  if p.isEmpty then
    Paragraph.draw { lines := [remark] } (w.inner s)
      (w.frame " Trace " (s.paint w.area (.color Palette.comment)))
  else
    Row.drawAll (p.shown (p.offset w) w.visible) w.area.inner.indent (w.frame " Trace " s)

end TracePane

end StepCalc
