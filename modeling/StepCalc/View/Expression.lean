import StepCalc.Source.Location
import StepCalc.Text.Blank
import StepCalc.Value
import StepCalc.View.Window

/-!
# The expression pane

Shows the source text with the characters of the last reduction marked, below it
the expression as far as it is reduced, and the result once there is one.
-/

namespace StepCalc

structure ExpressionPane where
  source : String
  highlight : Option Span
  text : String
  result : Option Value
  deriving DecidableEq, Repr

namespace ExpressionPane

/-- The colour of a source character says what it is read as. -/
def charStyle (c : Char) (marked : Bool) : Style :=
  let style : Style :=
    if c.isDigit then .color Palette.number
    else if c = '+' || c = '-' || c = '*' || c = '/' then .color Palette.operator
    else if c = '(' || c = ')' then .color Palette.primary
    else if Text.isBlank c then .plain
    else .color Palette.error
  if marked then (style.onto Palette.highlight).strong else style

/-- Puts a glyph in front of the first of several lines. -/
def consGlyph (g : Glyph) : List Line → List Line
  | [] => [[g]]
  | line :: rest => (g :: line) :: rest

/-- The lines of a source text whose first character has offset `o`. -/
def linesFrom (highlight : Option Span) (o : Nat) (source : List Char) : List Line :=
  (source.zipIdx o).foldr (fun (c, o) lines =>
    if c = '\n' then [] :: lines
    else consGlyph (.ofChar c (charStyle c (highlight.any (·.contains o)))) lines) [[]]

/-- The lines of a source text, in which the characters of `highlight` are marked. -/
def sourceLines (highlight : Option Span) (source : String) : List Line :=
  linesFrom highlight 0 source.toList

def textLine (p : ExpressionPane) : Line :=
  Line.ofString (.color Palette.comment) "⇒ " ++ Line.ofString (.color Palette.text) p.text

@[inline] def resultLines (p : ExpressionPane) : List Line :=
  match p.result with
  | none => []
  | some v =>
    [Line.ofString (.color Palette.comment) "= " ++
      Line.ofString (Style.color Palette.success).strong v.text]

/-- All that there is to show. -/
def lines (p : ExpressionPane) : List Line :=
  sourceLines p.highlight p.source ++ [] :: p.textLine :: p.resultLines

/-- The number of lines. -/
@[inline] def total (p : ExpressionPane) : Nat :=
  p.source.toList.count '\n' + 3 + p.resultLines.length

@[inline] def offset (p : ExpressionPane) (w : Window) : Nat :=
  w.clamp p.total

/-- The pane's paragraph; line numbers wrap around after 16 bits. -/
def paragraph (p : ExpressionPane) (w : Window) : Paragraph :=
  { lines := p.lines, first := p.offset w % Paragraph.lineLimit }

def draw (p : ExpressionPane) (w : Window) (s : Screen) : Screen :=
  (p.paragraph w).draw (w.inner s) (w.frame " Expression " s)

theorem length_consGlyph {g : Glyph} {lines : List Line} (h : lines ≠ []) :
    (consGlyph g lines).length = lines.length := by
  cases lines with
  | nil => exact absurd rfl h
  | cons line rest => rfl

theorem length_linesFrom (highlight : Option Span) (o : Nat) (source : List Char) :
    (linesFrom highlight o source).length = source.count '\n' + 1 := by
  induction source generalizing o with
  | nil => rfl
  | cons c rest ih =>
    have ih := ih (o + 1)
    have hne : linesFrom highlight (o + 1) rest ≠ [] := by
      intro h
      rw [h] at ih
      cases ih
    have hstep : linesFrom highlight o (c :: rest) =
        if c = '\n' then [] :: linesFrom highlight (o + 1) rest
        else consGlyph (.ofChar c (charStyle c (highlight.any (·.contains o))))
          (linesFrom highlight (o + 1) rest) := rfl
    rw [hstep]
    split
    · rename_i hc
      simp [hc, ih]
    · rename_i hc
      rw [length_consGlyph hne, ih, List.count_cons]
      simp [hc]

theorem length_lines (p : ExpressionPane) : p.lines.length = p.total := by
  simp only [lines, sourceLines, total, List.length_append, List.length_cons, length_linesFrom]
  omega

end ExpressionPane

end StepCalc
