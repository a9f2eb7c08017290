import StepCalc.Screen.Style
import StepCalc.Text.Cluster
import StepCalc.Text.Width

/-!
# Styled text

A glyph is a cluster of characters that are drawn as one, with its style. A line is
a list of glyphs.
-/

namespace StepCalc

structure Glyph where
  text : String
  style : Style
  deriving DecidableEq, Repr

namespace Glyph

/-- A character on its own. -/
def ofChar (c : Char) (style : Style) : Glyph :=
  ⟨String.singleton c, style⟩

def width (g : Glyph) : Nat :=
  Text.width g.text

end Glyph

abbrev Line := List Glyph

namespace Line

/-- A text in one style. A line feed has no place in a line and is left out. -/
def ofString (style : Style) (s : String) : Line :=
  ((Text.clusters s).filter (· != "\n")).map (⟨·, style⟩)

/-- The line on a ground of the given style. -/
def onGround (style : Style) (line : Line) : Line :=
  line.map fun g => { g with style := style.patch g.style }

def chars (line : Line) : List Char :=
  line.flatMap (·.text.toList)

/-- The number of columns that a line takes. -/
def width (line : Line) : Nat :=
  line.foldl (fun n g => n + g.width) 0

/-- The part of a line that fits into `room` columns, of which `used` are taken. It
ends at the first glyph that would cross the edge, but a glyph too wide for all of
`room` is left out. -/
def fitFrom (room used : Nat) : Line → Line
  | [] => []
  | g :: rest =>
    if room < g.width then fitFrom room used rest
    else if room < used + g.width then []
    else g :: fitFrom room (used + g.width) rest

def fit (room : Nat) (line : Line) : Line :=
  fitFrom room 0 line

end Line

end StepCalc
