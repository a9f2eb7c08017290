import StepCalc.Proofs.Token.Accounting
import StepCalc.View.Expression

/-!
# The lines of a source text

The expression pane cuts a source text into lines on its own, without the scanner. Still
both agree on lines and columns: what stands behind a place of the text is shown from the
line and column on that the scanner counts there (`exists_line_of_split`). They also agree
on the characters that are part of no expression, which the pane shows in the colour of
errors.
-/

namespace StepCalc

theorem Lexeme.Scanned.lineFeed_not_mem {x : Lexeme} (h : x.Scanned) : '\n' ∉ x.chars := by
  intro hmem
  have hblank := h.isBlank_eq_false hmem
  cases hblank

namespace ExpressionPane

/-- The glyph of a source character with offset `o`. -/
def glyph (highlight : Option Span) (o : Nat) (c : Char) : Glyph :=
  .ofChar c (charStyle c (highlight.any (·.contains o)))

theorem linesFrom_lineFeed_cons (highlight : Option Span) (o : Nat) (cs : List Char) :
    linesFrom highlight o ('\n' :: cs) = [] :: linesFrom highlight (o + 1) cs := rfl

theorem linesFrom_cons {highlight : Option Span} {o : Nat} {c : Char} (hc : c ≠ '\n')
    {cs : List Char} {first : Line} {later : List Line}
    (h : linesFrom highlight (o + 1) cs = first :: later) :
    linesFrom highlight o (c :: cs) = (glyph highlight o c :: first) :: later := by
  have hstep : linesFrom highlight o (c :: cs) =
      consGlyph (glyph highlight o c) (linesFrom highlight (o + 1) cs) := if_neg hc
  rw [hstep, h]
  rfl

section Cutting

variable (highlight : Option Span) (o : Nat)

theorem exists_linesFrom_eq_cons (cs : List Char) :
    ∃ first later, linesFrom highlight o cs = first :: later := by
  apply List.exists_cons_of_length_pos
  rw [length_linesFrom]
  exact Nat.succ_pos _

@[simp] theorem chars_glyph_cons (c : Char) (line : Line) :
    Line.chars (glyph highlight o c :: line) = c :: line.chars := by
  simp [Line.chars, glyph, Glyph.ofChar]

/-- The lines with line feeds between them are the text. -/
theorem intercalate_linesFrom (cs : List Char) :
    List.intercalate ['\n'] ((linesFrom highlight o cs).map Line.chars) = cs := by
  induction cs generalizing o with
  | nil => rfl
  | cons c cs ih =>
      have ih := ih (o + 1)
      obtain ⟨first, later, hlines⟩ := exists_linesFrom_eq_cons highlight (o + 1) cs
      rw [hlines] at ih
      by_cases hc : c = '\n'
      · rw [hc, linesFrom_lineFeed_cons, hlines, List.map_cons,
          List.intercalate_cons_of_ne_nil (by simp), ih]
        rfl
      · rw [linesFrom_cons hc hlines, List.map_cons, chars_glyph_cons]
        cases later with
        | nil => simpa using ih
        | cons second later => simpa [List.intercalate_cons_cons] using ih

/-- Cuts the lines of a text that begins at `l` where the text is cut. What comes behind
the cut begins in the line and the column of its place. -/
theorem linesFrom_append (l : Location) (cs ds : List Char) :
    ∃ init last first later, linesFrom highlight o (cs ++ ds) = init ++ (last ++ first) :: later ∧
      linesFrom highlight (o + cs.length) ds = first :: later ∧
      (l.after cs).line = l.line + init.length ∧
      (l.after cs).column = (if init = [] then l.column else 1) + last.length := by
  induction cs generalizing o l with
  | nil =>
      obtain ⟨first, later, hlines⟩ := exists_linesFrom_eq_cons highlight o ds
      exact ⟨[], [], first, later, hlines, hlines, rfl, rfl⟩
  | cons c cs ih =>
      obtain ⟨init, last, first, later, hlines, hrest, hline, hcolumn⟩ := ih (o + 1) (l.advance c)
      have hrest : linesFrom highlight (o + (c :: cs).length) ds = first :: later := by
        rw [← hrest, List.length_cons, Nat.add_right_comm, Nat.add_assoc]
      rw [List.cons_append, Location.after_cons, hline, hcolumn]
      by_cases hc : c = '\n'
      · have hadvance : l.advance c = ⟨l.offset + 1, l.line + 1, 1⟩ := if_pos hc
        rw [hc, linesFrom_lineFeed_cons, hlines, ← hc, hadvance, ite_self]
        refine ⟨[] :: init, last, first, later, rfl, hrest, ?_, rfl⟩
        simp only [List.length_cons]
        omega
      · have hadvance : l.advance c = ⟨l.offset + 1, l.line, l.column + 1⟩ := if_neg hc
        rw [hadvance]
        -- the character goes to the first line, which is the last one up to the cut if no
        -- line feed follows
        cases init with
        | nil =>
            refine ⟨[], glyph highlight o c :: last, first, later, linesFrom_cons hc hlines, hrest,
              rfl, ?_⟩
            simp only [if_true, List.length_cons]
            omega
        | cons line init =>
            exact ⟨(glyph highlight o c :: line) :: init, last, first, later,
              linesFrom_cons hc hlines, hrest, rfl, rfl⟩

/-- Characters without a line feed among them stand in one line. -/
theorem linesFrom_append_of_not_mem {cs : List Char} (h : '\n' ∉ cs) (ds : List Char) :
    ∃ glyphs first later, linesFrom highlight o (cs ++ ds) = (glyphs ++ first) :: later ∧
      glyphs.length = cs.length ∧ Line.chars glyphs = cs := by
  induction cs generalizing o with
  | nil =>
      obtain ⟨first, later, hlines⟩ := exists_linesFrom_eq_cons highlight o ds
      exact ⟨[], first, later, hlines, rfl, rfl⟩
  | cons c cs ih =>
      obtain ⟨hc, hcs⟩ := not_or.1 (mt List.mem_cons.2 h)
      obtain ⟨glyphs, first, later, hlines, hlength, hchars⟩ := ih (o + 1) hcs
      refine ⟨glyph highlight o c :: glyphs, first, later, linesFrom_cons (Ne.symm hc) hlines,
        ?_, ?_⟩
      · rw [List.length_cons, List.length_cons, hlength]
      · rw [chars_glyph_cons, hchars]

/-- Every glyph is a character of the text. -/
theorem exists_glyph_of_mem_linesFrom {cs : List Char} {line : Line}
    (hline : line ∈ linesFrom highlight o cs) {g : Glyph} (hg : g ∈ line) :
    ∃ i c, g = glyph highlight i c := by
  induction cs generalizing o line with
  | nil =>
      obtain rfl : line = [] := List.mem_singleton.1 hline
      cases hg
  | cons c cs ih =>
      obtain ⟨first, later, hlines⟩ := exists_linesFrom_eq_cons highlight (o + 1) cs
      have ih : ∀ line ∈ first :: later, g ∈ line → ∃ i c, g = glyph highlight i c := by
        intro line hline hg
        exact ih (o + 1) (hlines ▸ hline) hg
      by_cases hc : c = '\n'
      · rw [hc, linesFrom_lineFeed_cons, hlines] at hline
        rcases List.mem_cons.1 hline with rfl | hline
        · cases hg
        · exact ih line hline hg
      · rw [linesFrom_cons hc hlines] at hline
        rcases List.mem_cons.1 hline with rfl | hline
        · rcases List.mem_cons.1 hg with hg | hg
          · exact ⟨o, c, hg⟩
          · exact ih first List.mem_cons_self hg
        · exact ih line (List.mem_cons_of_mem _ hline) hg

end Cutting

section Styles

variable (c : Char)

/-- A mark changes the ground and the weight of a character, and leaves its colour. -/
theorem charStyle_eq (marked : Bool) :
    charStyle c marked =
      ⟨(charStyle c false).fg, if marked then some Palette.highlight else none, marked⟩ := by
  have hplain : charStyle c false = ⟨(charStyle c false).fg, none, false⟩ := by
    simp only [charStyle, Bool.false_eq_true, if_false]
    repeat' split
    all_goals rfl
  cases marked with
  | true => rfl
  | false => exact hplain

/-- The colour of errors is that of the characters which only an invalid token has. -/
theorem fg_charStyle_eq_error_iff :
    (charStyle c false).fg = some Palette.error ↔
      Text.isBlank c = false ∧ Kind.ofChar c = .invalid := by
  unfold Kind.ofChar
  split
  case h_7 _ hadd hsub hmul hdiv hopen hclose =>
    by_cases hdigit : c.isDigit = true
    · have hstyle : charStyle c false = .color Palette.number := by simp [charStyle, hdigit]
      rw [hstyle, if_pos hdigit]
      exact iff_of_false (by decide) (by simp)
    · have hop : ¬ (c = '+' || c = '-' || c = '*' || c = '/') = true := by simp_all
      have hparen : ¬ (c = '(' || c = ')') = true := by simp_all
      have hstyle : charStyle c false =
          if Text.isBlank c then .plain else .color Palette.error := by
        simp only [charStyle, if_neg hdigit, if_neg hop, if_neg hparen, Bool.false_eq_true,
          if_false]
      rw [hstyle, if_neg hdigit]
      cases Text.isBlank c <;> simp [Style.plain, Style.color]
  all_goals exact iff_of_false (by decide) (by simp)

end Styles

/-- What stands behind a place of the text is shown from its line and column on. -/
theorem exists_line_of_split {source : String} {before behind : List Char}
    (h : source.toList = before ++ behind) (highlight : Option Span) :
    ∃ line later, (sourceLines highlight source)[(Location.start.after before).line - 1]? =
        some line ∧
      linesFrom highlight before.length behind =
        line.drop ((Location.start.after before).column - 1) :: later := by
  obtain ⟨init, last, first, later, hlines, hbehind, hline, hcolumn⟩ :=
    linesFrom_append highlight 0 .start before behind
  have hline : (Location.start.after before).line - 1 = init.length := by
    rw [hline]
    exact Nat.add_sub_cancel_left 1 init.length
  have hcolumn : (Location.start.after before).column - 1 = last.length := by
    have hfirst : (if init = [] then Location.start.column else 1) = 1 := ite_self 1
    rw [hcolumn, hfirst, Nat.add_sub_cancel_left]
  refine ⟨last ++ first, later, ?_, ?_⟩
  · rw [sourceLines, h, hlines, hline]
    simp
  · rw [hcolumn, List.drop_left, ← hbehind, Nat.zero_add]

/-- The glyph in the line and the column of `l`. -/
def glyphAt? (lines : List Line) (l : Location) : Option Glyph :=
  lines[l.line - 1]?.bind (·[l.column - 1]?)

theorem glyphAt?_sourceLines {source : String} {o : Nat} {c : Char}
    (h : source.toList[o]? = some c) (hc : c ≠ '\n') (highlight : Option Span) :
    glyphAt? (sourceLines highlight source) (Location.start.after (source.toList.take o)) =
      some (glyph highlight o c) := by
  obtain ⟨hlt, hget⟩ := List.getElem?_eq_some_iff.1 h
  have hsplit : source.toList = source.toList.take o ++ c :: source.toList.drop (o + 1) := by
    rw [← hget, ← List.drop_eq_getElem_cons hlt, List.take_append_drop]
  obtain ⟨line, later, hline, hbehind⟩ := exists_line_of_split hsplit highlight
  obtain ⟨first, rest, hrest⟩ :=
    exists_linesFrom_eq_cons highlight (o + 1) (source.toList.drop (o + 1))
  rw [List.length_take_of_le (Nat.le_of_lt hlt), linesFrom_cons hc hrest, List.cons.injEq]
    at hbehind
  rw [glyphAt?, hline, Option.bind_some, ← List.head?_drop, ← hbehind.1]
  rfl

/-- A token is spelled from its line and column on. -/
theorem exists_line_of_mem_tokenize {source : String} {t : Token} (ht : t ∈ tokenize source)
    (hend : t.lexeme ≠ .endOfInput) (highlight : Option Span) :
    ∃ line, (sourceLines highlight source)[t.location.line - 1]? = some line ∧
      Line.chars ((line.drop (t.location.column - 1)).take t.lexeme.chars.length) =
        t.lexeme.chars := by
  obtain ⟨before, behind, hsplit, hlocation, hscanned, -⟩ :=
    (readsAs_tokenize source).exists_split (by simp [ReadsAs.Apart]) t ht
  obtain ⟨line, later, hline, hbehind⟩ := exists_line_of_split hsplit highlight
  obtain ⟨glyphs, first, later', hlines, hlength, hchars⟩ :=
    linesFrom_append_of_not_mem highlight before.length (hscanned hend).lineFeed_not_mem behind
  rw [hlines, List.cons.injEq] at hbehind
  rw [hlocation]
  refine ⟨line, hline, ?_⟩
  rw [← hbehind.1, ← hlength, List.take_left, hchars]

/-- What a glyph says about the character `c` of `source` that has offset `o`. -/
structure ShowsChar (source : String) (highlight : Option Span) (o : Nat) (c : Char)
    (g : Glyph) : Prop where
  text : g.text = String.singleton c
  ground : g.style.bg = some Palette.highlight ↔ ∃ s ∈ highlight, s.start ≤ o ∧ o < s.stop
  bold : g.style.bold = true ↔ ∃ s ∈ highlight, s.start ≤ o ∧ o < s.stop
  error : g.style.fg = some Palette.error ↔
    ∃ t ∈ tokenize source, t.kind = .invalid ∧ t.location.offset = o

/-- The lines show `source` in the places in which it is scanned. -/
structure ShowsSource (source : String) (highlight : Option Span) (lines : List Line) : Prop where
  spelled : List.intercalate ['\n'] (lines.map Line.chars) = source.toList
  single : ∀ line ∈ lines, ∀ g ∈ line, ∃ c, g.text = String.singleton c
  placed : ∀ o c, source.toList[o]? = some c → c ≠ '\n' →
    ∃ g, glyphAt? lines (Location.start.after (source.toList.take o)) = some g ∧
      ShowsChar source highlight o c g
  tokens : ∀ t ∈ tokenize source, t.lexeme ≠ .endOfInput →
    ∃ line, lines[t.location.line - 1]? = some line ∧
      Line.chars ((line.drop (t.location.column - 1)).take t.lexeme.chars.length) = t.lexeme.chars

theorem any_contains_iff (highlight : Option Span) (o : Nat) :
    highlight.any (·.contains o) = true ↔ ∃ s ∈ highlight, s.start ≤ o ∧ o < s.stop := by
  simp [Option.any_eq_true, Span.contains]

theorem showsChar_glyph {source : String} {o : Nat} {c : Char} (h : source.toList[o]? = some c)
    (highlight : Option Span) : ShowsChar source highlight o c (glyph highlight o c) := by
  have hmarked := any_contains_iff highlight o
  have hinvalid := (readsAs_tokenize source).tokenization.exists_invalid_iff h
  have hstyle : (glyph highlight o c).style = charStyle c (highlight.any (·.contains o)) := rfl
  rw [charStyle_eq] at hstyle
  constructor
  case text => rfl
  case ground =>
    rw [hstyle, ← hmarked]
    simp
  case bold => rw [hstyle, ← hmarked]
  case error => rw [hstyle, hinvalid, fg_charStyle_eq_error_iff]

/-- The expression pane and the scanner agree on the source text, whatever is marked in
it. -/
theorem source_lines_agree_with_tokens (source : String) (highlight : Option Span) :
    ShowsSource source highlight (sourceLines highlight source) := by
  constructor
  case spelled => exact intercalate_linesFrom highlight 0 source.toList
  case single =>
    intro line hline g hg
    obtain ⟨_, c, rfl⟩ := exists_glyph_of_mem_linesFrom highlight 0 hline hg
    exact ⟨c, rfl⟩
  case placed =>
    intro o c h hc
    exact ⟨_, glyphAt?_sourceLines h hc highlight, showsChar_glyph h highlight⟩
  case tokens =>
    intro t ht hend
    exact exists_line_of_mem_tokenize ht hend highlight

end ExpressionPane

end StepCalc
