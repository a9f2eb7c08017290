import StepCalc.Screen.Widget
import StepCalc.View.Palette

/-!
# Windows

A pane shows part of a listing that may be longer than its area. The window says
where on the screen the pane is, whether it has the focus, and which row of the
listing comes first. Before drawing, the first row is moved back so that the
last page of the listing is full.
-/

namespace StepCalc

structure Window where
  area : Area
  focused : Bool
  offset : Nat
  deriving DecidableEq, Repr

namespace Window

/-- The number of rows inside the border, taken to be at least one. -/
def visible (w : Window) : Nat :=
  max (w.area.height - 2) 1

/-- The first row shown of a listing with `total` rows. -/
def clamp (w : Window) (total : Nat) : Nat :=
  if w.visible < total then min w.offset (total - w.visible) else 0

def borderStyle (w : Window) : Style :=
  if w.focused then (Style.color Palette.focusedBorder).strong else .color Palette.border

/-- What the border leaves of the part of the pane that is on the screen. -/
def inner (w : Window) (s : Screen) : Area :=
  (s.clip w.area).inner

/-- Draws the border and the title. -/
def frame (w : Window) (title : String) (s : Screen) : Screen :=
  s.frame w.area title w.borderStyle

/-- Redrawing at the same place leaves the first row where it is. -/
theorem clamp_clamp (w : Window) (total : Nat) :
    { w with offset := w.clamp total }.clamp total = w.clamp total := by
  have hv (o : Nat) : { w with offset := o }.visible = w.visible := rfl
  by_cases h : w.visible < total
  · simp only [clamp, hv, if_pos h]
    omega
  · simp only [clamp, hv, if_neg h]

end Window

end StepCalc
