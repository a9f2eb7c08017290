import StepCalc.Screen.Area
import StepCalc.Screen.Line

/-!
# Screens

A screen is a grid of cells. Every cell holds a symbol, and one that takes more than
a column hides the cell at its right. Drawing outside the grid has no effect.
-/

namespace StepCalc

structure Cell where
  symbol : String
  fg : Color
  bg : Color
  bold : Bool
  deriving DecidableEq, Repr

namespace Cell

def blank : Cell := ⟨" ", .reset, .reset, false⟩

def paint (c : Cell) (s : Style) : Cell :=
  { c with fg := s.fg.getD c.fg, bg := s.bg.getD c.bg, bold := c.bold || s.bold }

def sameLook (c d : Cell) : Bool :=
  c.fg == d.fg && c.bg == d.bg && c.bold == d.bold

end Cell

/-- The cells row by row. -/
structure Screen where
  width : Nat
  height : Nat
  cells : Array Cell
  deriving DecidableEq, Repr

namespace Screen

def blank (width height : Nat) : Screen :=
  ⟨width, height, Array.replicate (width * height) .blank⟩

def area (s : Screen) : Area :=
  ⟨0, 0, s.width, s.height⟩

def modify (s : Screen) (x y : Nat) (f : Cell → Cell) : Screen :=
  if x < s.width then { s with cells := s.cells.modify (y * s.width + x) f } else s

@[simp] theorem modify_width (s : Screen) (x y : Nat) (f : Cell → Cell) :
    (s.modify x y f).width = s.width := by
  unfold modify
  split <;> rfl

@[simp] theorem modify_height (s : Screen) (x y : Nat) (f : Cell → Cell) :
    (s.modify x y f).height = s.height := by
  unfold modify
  split <;> rfl

/-- The part of an area that is on the screen. -/
def clip (s : Screen) (a : Area) : Area :=
  a.meet s.area

/-- Paints all cells of an area. -/
def paint (s : Screen) (a : Area) (style : Style) : Screen :=
  let a := s.clip a
  (List.range a.height).foldl (fun s dy =>
    (List.range a.width).foldl (fun s dx => s.modify (a.x + dx) (a.y + dy) (·.paint style)) s) s

/-- Puts a glyph in place of the symbol of a cell. -/
def put (s : Screen) (x y : Nat) (g : Glyph) : Screen :=
  s.modify x y fun c => { c with symbol := g.text }.paint g.style

/-- Adds a text to the symbol of a cell. -/
def attach (s : Screen) (x y : Nat) (text : String) : Screen :=
  s.modify x y fun c => { c with symbol := c.symbol ++ text }

/-- Empties `n` cells from `(x, y)` on. -/
def clear (s : Screen) (x y n : Nat) : Screen :=
  (List.range n).foldl (fun s dx => s.modify (x + dx) y fun _ => .blank) s

/-- Writes a line from `(x, y)` on; glyphs without width are left out. -/
def write (s : Screen) (x y : Nat) : Line → Screen
  | [] => s
  | g :: rest =>
    if g.width = 0 then s.write x y rest else (s.put x y g).write (x + g.width) y rest

/-- Goes on writing at `(x, y)`, after at least one cluster, in the columns from `left`
on and before `right`. A cluster without width joins the cell at its left; as long
as the first column is not passed, everything joins the first cell. -/
def writeOn (s : Screen) (left right x y : Nat) : List String → Screen
  | [] => s
  | t :: rest =>
    let w := Text.width t
    if right < x + w then s
    else
      let s :=
        if x = left then s.attach x y t
        else if w = 0 then s.attach (x - 1) y t
        else s.put x y ⟨t, .plain⟩
      (s.clear (x + 1) y (w - 1)).writeOn left right (x + w) y rest

/-- Writes clusters from `(left, y)` on, up to the first that would cross the edge
before column `right`. The cells that a wide one covers are emptied. -/
def writeAll (s : Screen) (left right y : Nat) : List String → Screen
  | [] => s
  | t :: rest =>
    let w := Text.width t
    if right < left + w then s
    else ((s.put left y ⟨t, .plain⟩).clear (left + 1) y (w - 1)).writeOn left right (left + w) y rest

/-- Whether the cell before number `i` hides it. -/
def hides (s : Screen) (i : Nat) : Bool :=
  decide (0 < i) && s.cells[i - 1]?.any fun c => decide (1 < Text.width c.symbol)

/-- The cells as they are seen. -/
def seen (s : Screen) : Array Cell :=
  s.cells.mapIdx fun i c => if s.hides i then .blank else c

/-- The rows of cells as they are seen; none on a screen without columns. -/
def rows (s : Screen) : List (List Cell) :=
  if s.width = 0 then []
  else
    let cells := s.seen
    (List.range s.height).map fun y => (cells.extract (y * s.width) ((y + 1) * s.width)).toList

/-- The symbols of a row in one text. -/
def rowText (row : List Cell) : String :=
  row.foldl (fun text c => text ++ c.symbol) ""

/-- A row cut into the longest stretches of cells that look alike. -/
def stretches (row : List Cell) : List (List Cell) :=
  row.splitBy Cell.sameLook

end Screen

end StepCalc
