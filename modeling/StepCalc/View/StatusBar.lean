import StepCalc.Screen.Widget
import StepCalc.View.Palette

/-!
# The status bar

On the left the position in the history and the latest message, on the right the
keys and a badge for the state of the replay.
-/

namespace StepCalc

structure StatusBar where
  message : String
  position : Nat
  total : Nat
  failed : Bool
  playing : Bool
  deriving DecidableEq, Repr

namespace StatusBar

/-- The number of the step, counted from one in 64 bits. -/
def step (b : StatusBar) : Nat :=
  (b.position + 1) % UInt64.size

def atEnd (b : StatusBar) : Bool :=
  decide (b.total ≤ b.step)

/-- The error that stopped the evaluation is shown at the end of the history. -/
def showsError (b : StatusBar) : Bool :=
  b.failed && b.atEnd

def ground : Style := Style.plain.onto Palette.currentLine

def left (b : StatusBar) : Line :=
  let alarm := if b.showsError then Palette.error else Palette.primary
  let ink := if b.showsError then Palette.error else Palette.text
  Line.ofString ((Style.color .black).onto alarm).strong s!" Step {b.step}/{b.total} " ++
    Line.ofString (ground.patch (.color Palette.comment)) " | " ++
    Line.ofString (ground.patch (.color ink)) s!" {b.message} "

/-- The label and colour of the badge; none between start and end. -/
def badge (b : StatusBar) : Option (String × Color) :=
  if b.playing then some (" ▶ PLAYING ", Palette.secondary)
  else if b.showsError then some (" ERROR ", Palette.error)
  else if b.atEnd then some (" END ", Palette.error)
  else if b.position = 0 then some (" START ", Palette.success)
  else none

def separator : Line :=
  Line.ofString (ground.patch (.color Palette.comment)) "│"

/-- A key and what it does. -/
def hint (key action : String) : Line :=
  Line.ofString ((Style.color .black).onto Palette.comment) key ++
    Line.ofString (ground.patch (.color Palette.text)) action

/-- The mark between two hints. -/
def divider : Line :=
  separator ++ Line.ofString (ground.patch (.color Palette.text)) " "

def hints : Line :=
  hint " ←/→ " " step " ++ divider ++ hint " ⎵ " " play " ++ divider ++
    hint " ↵ / ⌫ " " end/start " ++ divider ++ hint "q" " quit "

def right (b : StatusBar) : Line :=
  match b.badge with
  | none => hints
  | some (label, color) =>
    hints ++ separator ++ Line.ofString ((Style.color .black).onto color).strong label

def draw (b : StatusBar) (a : Area) (s : Screen) : Screen :=
  let (l, r) := a.splitColumns 50
  let s := Paragraph.draw { lines := [b.left] } (s.clip l) (s.paint l ground)
  Paragraph.draw { lines := [b.right], atRight := true } (s.clip r) (s.paint r ground)

end StatusBar

end StepCalc
