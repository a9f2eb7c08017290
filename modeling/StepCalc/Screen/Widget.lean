import StepCalc.Screen.Basic
import StepCalc.Text.Lines

/-!
# Drawing in areas

Frames, paragraphs and lists. A paragraph shows styled lines from a given first
line on; a list shows texts below each other and styles whole rows.
-/

namespace StepCalc

namespace Screen

/-- Draws a border along the inside of an area. The sides come first and the
corners after them, the upper left one last. -/
def border (s : Screen) (a : Area) (style : Style) : Screen :=
  if a.isEmpty then s
  else
    let sides (s : Screen) := (List.range a.height).foldl (fun s dy =>
      (s.put a.x (a.y + dy) ⟨"│", style⟩).put a.right (a.y + dy) ⟨"│", style⟩) s
    let edges (s : Screen) := (List.range a.width).foldl (fun s dx =>
      (s.put (a.x + dx) a.y ⟨"─", style⟩).put (a.x + dx) a.bottom ⟨"─", style⟩) s
    ((((edges (sides s)).put a.right a.bottom ⟨"┘", style⟩).put a.right a.y ⟨"┐", style⟩).put
      a.x a.bottom ⟨"└", style⟩).put a.x a.y ⟨"┌", style⟩

/-- Draws a border with a title in its upper edge around what of the area is on the
screen. -/
def frame (s : Screen) (a : Area) (title : String) (style : Style) : Screen :=
  let a := s.clip a
  if a.isEmpty then s
  else (s.border a style).write (a.x + 1) a.y (Line.fit (a.width - 2) (Line.ofString .plain title))

end Screen

/-- Lines of styled text. -/
structure Paragraph where
  lines : List Line
  first : Nat := 0
  atRight : Bool := false
  deriving DecidableEq, Repr

namespace Paragraph

/-- Line numbers are 16 bits wide, and so is the number of the line after the last. -/
def lineLimit : Nat := UInt16.size

/-- The lines that an area of the given height shows. -/
def shown (p : Paragraph) (height : Nat) : List Line :=
  (p.lines.take ((p.first + height) % lineLimit)).drop p.first

def draw (p : Paragraph) (a : Area) (s : Screen) : Screen :=
  if a.isEmpty then s
  else
    (p.shown a.height).zipIdx.foldl (fun s (line, dy) =>
      let line := line.fit a.width
      let x := if p.atRight then a.x + (a.width - line.width) else a.x
      s.write x (a.y + dy) line) s

end Paragraph

/-- A text with the style of the rows it stands in. -/
structure Row where
  text : String
  style : Style
  deriving DecidableEq, Repr

namespace Row

def lines (r : Row) : List String :=
  Text.lines r.text

def height (r : Row) : Nat :=
  r.lines.length

/-- Writes one line of a text; a line without width leaves no trace. -/
def drawLine (line : String) (a : Area) (s : Screen) : Screen :=
  if Text.width line = 0 then s else s.writeAll a.x (a.x + a.width) a.y (Text.clusters line)

/-- Draws the text in what of the area is on the screen. -/
def draw (r : Row) (a : Area) (s : Screen) : Screen :=
  let a := s.clip a
  if a.isEmpty then s
  else
    (r.lines.take a.height).zipIdx.foldl (fun s (line, dy) =>
      drawLine line ⟨a.x, a.y + dy, a.width, 1⟩ s) (s.paint a r.style)

/-- Places texts below each other from row `y` on, as long as they fit into `room` rows. -/
def place (y room : Nat) : List Row → List (Row × Nat)
  | [] => []
  | r :: rest =>
    if room < r.height then [] else (r, y) :: place (y + r.height) (room - r.height) rest

/-- Draws texts below each other, as many as fit. -/
def drawAll (rows : List Row) (a : Area) (s : Screen) : Screen :=
  if a.isEmpty then s
  else
    (place a.y a.height rows).foldl (fun s (r, y) => r.draw ⟨a.x, y, a.width, r.height⟩ s) s

end Row

end StepCalc
