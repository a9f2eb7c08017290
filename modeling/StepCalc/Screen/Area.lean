/-!
# Areas

Rectangles of screen cells and the ways in which panes divide them.
-/

namespace StepCalc

structure Area where
  x : Nat
  y : Nat
  width : Nat
  height : Nat
  deriving DecidableEq, Repr

namespace Area

def isEmpty (a : Area) : Bool :=
  a.width == 0 || a.height == 0

/-- The last column; meaningful if there is one. -/
def right (a : Area) : Nat :=
  a.x + a.width - 1

/-- The last row; meaningful if there is one. -/
def bottom (a : Area) : Nat :=
  a.y + a.height - 1

/-- What two areas have in common. -/
def meet (a b : Area) : Area :=
  let x := max a.x b.x
  let y := max a.y b.y
  ⟨x, y, min (a.x + a.width) (b.x + b.width) - x, min (a.y + a.height) (b.y + b.height) - y⟩

/-- What a border of one cell leaves. -/
def inner (a : Area) : Area :=
  ⟨a.x + 1, a.y + 1, a.width - 2, a.height - 2⟩

/-- What a free column at the left leaves. -/
def indent (a : Area) : Area :=
  ⟨a.x + 1, a.y, a.width - 1, a.height⟩

/-- `percent` of `n` cells, a half rounded up. -/
def share (n percent : Nat) : Nat :=
  (n * percent + 50) / 100

/-- A left part of the given percentage and the rest. -/
def splitColumns (a : Area) (percent : Nat) : Area × Area :=
  let w := share a.width percent
  (⟨a.x, a.y, w, a.height⟩, ⟨a.x + w, a.y, a.width - w, a.height⟩)

/-- An upper part of the given percentage and the rest. -/
def splitRows (a : Area) (percent : Nat) : Area × Area :=
  let h := share a.height percent
  (⟨a.x, a.y, a.width, h⟩, ⟨a.x, a.y + h, a.width, a.height - h⟩)

/-- All but the last row, and the last row. -/
def splitLastRow (a : Area) : Area × Area :=
  (⟨a.x, a.y, a.width, a.height - 1⟩, ⟨a.x, a.y + (a.height - 1), a.width, min a.height 1⟩)

end Area

end StepCalc
