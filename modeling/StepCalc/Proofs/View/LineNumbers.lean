import StepCalc.Proofs.View.SourceLines
import StepCalc.Proofs.View.Windowed

/-!
# Line numbers in the expression pane

The expression pane hands all its lines to a widget, together with the number of the line to
start at. The number is cut to 16 bits on the way. So a widget that starts where it is told to
shows the lines at the offset of the pane as long as the offset has 16 bits, which it has in
every pane with at most 65536 lines; a longer source text can be scrolled to where other lines
are shown (`first_line_of_trailing`).
-/

namespace StepCalc

namespace Paragraph

/-- What a widget is taken to do: in an area of the given height it shows the lines of a
paragraph from the number on that the paragraph gives. -/
def StartsAtFirst (widget : Paragraph → Nat → List Line) : Prop :=
  ∀ q height, q.first < lineLimit → widget q height = (q.lines.drop q.first).take height

/-- The lines from the given number on. -/
def fromFirst (q : Paragraph) (height : Nat) : List Line :=
  (q.lines.drop q.first).take height

theorem startsAtFirst_fromFirst : StartsAtFirst fromFirst :=
  fun _ _ _ => rfl

end Paragraph

namespace ExpressionPane

variable {p : ExpressionPane} {w : Window} {widget : Paragraph → Nat → List Line}

/-- A widget starts with the line whose number is left of the offset in 16 bits. -/
theorem widget_paragraph_eq (hwidget : Paragraph.StartsAtFirst widget) (height : Nat) :
    widget (p.paragraph w) height =
      (p.lines.drop (p.offset w % Paragraph.lineLimit)).take height :=
  hwidget (p.paragraph w) height (Nat.mod_lt _ (by decide))

theorem first_paragraph_eq_iff :
    (p.paragraph w).first = p.offset w ↔ p.offset w < Paragraph.lineLimit := by
  have hlt : p.offset w % Paragraph.lineLimit < Paragraph.lineLimit := Nat.mod_lt _ (by decide)
  constructor
  · intro h
    rw [← h]
    exact hlt
  · exact Nat.mod_eq_of_lt

/-- The last page begins where the offset may be at most. -/
theorem offset_lt (h : p.lines.length < Paragraph.lineLimit + w.visible) :
    p.offset w < Paragraph.lineLimit := by
  have hclamp := w.clamp_le p.total
  have hpos : 0 < Paragraph.lineLimit := by decide
  rw [length_lines] at h
  rw [offset]
  omega

/-- What a widget shows of the lines of `p` in the window `w`. -/
structure ShowsLines (widget : Paragraph → Nat → List Line) (p : ExpressionPane) (w : Window) :
    Prop where
  /-- The lines of the source text, an empty one, the expression and the result. -/
  contents : ∃ source, List.intercalate ['\n'] (source.map Line.chars) = p.source.toList ∧
    p.lines = source ++ [] :: p.textLine :: p.resultLines
  offset : p.offset w =
    if w.visible < p.lines.length then min w.offset (p.lines.length - w.visible) else 0
  /-- The number that is handed to the widget. -/
  first : (p.paragraph w).first = p.offset w % Paragraph.lineLimit
  first_eq_offset_iff : (p.paragraph w).first = p.offset w ↔ p.offset w < Paragraph.lineLimit
  drawn : ∀ height, widget (p.paragraph w) height =
    (p.lines.drop (p.offset w % Paragraph.lineLimit)).take height
  drawn_at_offset : p.offset w < Paragraph.lineLimit → ∀ height,
    widget (p.paragraph w) height = (p.lines.drop (p.offset w)).take height
  within : p.lines.length < Paragraph.lineLimit + w.visible → p.offset w < Paragraph.lineLimit

/-- The expression pane shows the lines from its offset on as long as the offset has 16 bits,
as it has if all lines before the last page do. Behind that the number of the first line wraps
around. -/
theorem lines_shown_up_to_limit (hwidget : Paragraph.StartsAtFirst widget) (p : ExpressionPane)
    (w : Window) : ShowsLines widget p w := by
  constructor
  case contents =>
    exact ⟨_, intercalate_linesFrom p.highlight 0 p.source.toList, rfl⟩
  case offset =>
    rw [length_lines]
    rfl
  case first => rfl
  case first_eq_offset_iff => exact first_paragraph_eq_iff
  case drawn => exact widget_paragraph_eq hwidget
  case drawn_at_offset =>
    intro h height
    rw [widget_paragraph_eq hwidget, Nat.mod_eq_of_lt h]
  case within => exact offset_lt

/-- The window that fills a screen, scrolled down as far as it can be. -/
def bottomOf (s : Screen) : Window := ⟨s.area, false, Scroll.bottom⟩

/-- A sum in three lines. -/
def threeLines : ExpressionPane := ⟨"1\n+\n2", none, "3", some 3⟩

/-- The two rows of a pane at the bottom of the sum are the reduced expression and the
result. -/
theorem lines_shown_up_to_limit_threeLines :
    Paragraph.StartsAtFirst Paragraph.fromFirst ∧
      threeLines.offset (bottomOf (.blank 20 4)) < Paragraph.lineLimit ∧
      (Paragraph.fromFirst (threeLines.paragraph (bottomOf (.blank 20 4))) 2).map Line.chars =
        ["⇒ 3".toList, "= 3".toList] := by
  have hshows := lines_shown_up_to_limit Paragraph.startsAtFirst_fromFirst threeLines
    (bottomOf (.blank 20 4))
  have hoffset : threeLines.offset (bottomOf (.blank 20 4)) < Paragraph.lineLimit := by
    apply hshows.within
    rw [length_lines]
    decide +kernel
  refine ⟨Paragraph.startsAtFirst_fromFirst, hoffset, ?_⟩
  rw [hshows.drawn_at_offset hoffset]
  decide +kernel

section LongSource

/-- A text of line feeds has only empty lines. -/
theorem linesFrom_replicate (highlight : Option Span) (o n : Nat) :
    linesFrom highlight o (List.replicate n '\n') = List.replicate (n + 1) [] := by
  induction n generalizing o with
  | zero => rfl
  | succ n ih =>
      rw [List.replicate_succ, linesFrom_lineFeed_cons, ih, ← List.replicate_succ]

/-- The number 1 with `n` line feeds behind it. -/
def trailing (n : Nat) : ExpressionPane :=
  ⟨String.ofList ('1' :: List.replicate n '\n'), none, "1", some 1⟩

theorem lines_trailing (n : Nat) :
    (trailing n).lines = [glyph none 0 '1'] :: (List.replicate n [] ++
      [[], (trailing 0).textLine] ++ (trailing 0).resultLines) := by
  have hsource : sourceLines none (trailing n).source =
      [glyph none 0 '1'] :: List.replicate n [] := by
    rw [sourceLines, trailing, String.toList_ofList]
    exact linesFrom_cons (by decide) (linesFrom_replicate none 1 n)
  have hlines : (trailing n).lines = sourceLines none (trailing n).source ++
      [] :: (trailing 0).textLine :: (trailing 0).resultLines := rfl
  rw [hlines, hsource]
  simp

theorem total_trailing (n : Nat) : (trailing n).total = n + 4 := by
  rw [← length_lines, lines_trailing]
  simp [resultLines, trailing]

theorem take_lines_trailing (n : Nat) :
    ((trailing (n + 3)).lines.drop 1).take 3 = [[], [], []] := by
  rw [lines_trailing]
  rfl

theorem drop_lines_trailing (n : Nat) :
    (trailing n).lines.drop (n + 1) =
      [[], (trailing 0).textLine] ++ (trailing 0).resultLines := by
  rw [lines_trailing, List.drop_succ_cons, List.append_assoc,
    List.drop_left' List.length_replicate]

/-- With 65536 line feeds, the last page of the pane is drawn as empty lines. The lines at its
offset end with the reduced expression and the result. -/
theorem first_line_of_trailing :
    ((bottomOf (.blank 16 5)).inner (.blank 16 5)).height = 3 ∧
      (trailing 65536).offset (bottomOf (.blank 16 5)) = 65537 ∧
      ((trailing 65536).paragraph (bottomOf (.blank 16 5))).first = 1 ∧
      (∀ widget, Paragraph.StartsAtFirst widget →
        widget ((trailing 65536).paragraph (bottomOf (.blank 16 5))) 3 = [[], [], []]) ∧
      (((trailing 65536).lines.drop 65537).take 3).map Line.chars =
        [[], "⇒ 1".toList, "= 1".toList] := by
  have hoffset : (trailing 65536).offset (bottomOf (.blank 16 5)) = 65537 := by
    rw [offset, total_trailing]
    decide
  have hfirst : 65537 % Paragraph.lineLimit = 1 := rfl
  refine ⟨rfl, hoffset, ?_, ?_, ?_⟩
  · rw [paragraph, hoffset]
    exact hfirst
  · intro widget hwidget
    rw [widget_paragraph_eq hwidget, hoffset, hfirst]
    exact take_lines_trailing 65533
  · rw [drop_lines_trailing 65536]
    decide +kernel

end LongSource

end ExpressionPane

end StepCalc
