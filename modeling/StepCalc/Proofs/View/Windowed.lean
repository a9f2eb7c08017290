import StepCalc.Session.Basic

/-!
# Windows on listings

The panes for the tree, the tokens and the trace make only the rows that they show, each in
its own way. What they hand on to be drawn is in every case the same part of the listing
that they would have with room for all of it.
-/

namespace StepCalc

namespace Window

variable (w : Window)

theorem visible_pos : 0 < w.visible :=
  Nat.le_max_right _ 1

theorem clamp_le (total : Nat) : w.clamp total ≤ total - w.visible := by
  unfold clamp
  split
  · exact Nat.min_le_right _ _
  · exact Nat.zero_le _

/-- A window at the bottom of a listing shows its last row. -/
theorem getLast?_of_length_le {α : Type} {listing : List α} (h : listing.length ≤ w.offset) :
    ((listing.drop (w.clamp listing.length)).take w.visible).getLast? = listing.getLast? := by
  have hpos := w.visible_pos
  have hclamp : w.clamp listing.length = listing.length - w.visible := by
    unfold clamp
    split <;> omega
  have hall : (listing.drop (w.clamp listing.length)).length ≤ w.visible := by
    rw [List.length_drop, hclamp]
    omega
  rw [List.take_of_length_le hall, List.getLast?_drop, hclamp]
  split
  · have hnil : listing = [] := List.length_eq_zero_iff.1 (by omega)
    rw [hnil]
    rfl
  · rfl

variable {w} {w' : Window}

theorem visible_eq_of_height_eq (h : w'.area.height = w.area.height) :
    w'.visible = w.visible := by
  rw [visible, visible, h]

/-- Drawing again at the same height leaves the window where it is. -/
theorem clamp_eq_of_settled {total : Nat} (hheight : w'.area.height = w.area.height)
    (hoffset : w'.offset = w.clamp total) : w'.clamp total = w.clamp total := by
  have hsame : w'.clamp total = { w with offset := w.clamp total }.clamp total := by
    rw [clamp, visible_eq_of_height_eq hheight, hoffset]
    rfl
  rw [hsame, clamp_clamp]

end Window

/-- A pane that leaves its window at `offset` and hands on `rows` to be drawn, which are
those of `listing` in the window. -/
structure Windowed {α : Type} (listing : List α) (offset : Window → Nat) (rows : Window → List α)
    (draw : Window → Screen → Screen) (hand : List α → Window → Screen → Screen) : Prop where
  first : ∀ w, offset w =
    if w.visible < listing.length then min w.offset (listing.length - w.visible) else 0
  shown : ∀ w, rows w =
    listing.extract (offset w) (min (offset w + w.visible) listing.length)
  drawn : ∀ w s, draw w s = hand (rows w) w s
  newest : ∀ w : Window, w.offset = Scroll.bottom → listing.length ≤ Scroll.bottom →
    (rows w).getLast? = listing.getLast?
  settled : ∀ w w' : Window, w'.area.height = w.area.height → w'.offset = offset w →
    offset w' = offset w ∧ rows w' = rows w

/-- It is enough that the window is clamped and that the rows are those of the listing. -/
theorem Windowed.of_clamp {α : Type} {listing : List α} {offset : Window → Nat}
    {rows : Window → List α} {draw : Window → Screen → Screen}
    {hand : List α → Window → Screen → Screen}
    (hoffset : ∀ w, offset w = w.clamp listing.length)
    (hrows : ∀ w, rows w = (listing.drop (offset w)).take w.visible)
    (hdraw : ∀ w s, draw w s = hand (rows w) w s) : Windowed listing offset rows draw hand := by
  constructor
  case first => exact hoffset
  case shown =>
    intro w
    rw [hrows, List.extract_eq_take_drop, List.take_eq_take_iff, List.length_drop]
    omega
  case drawn => exact hdraw
  case newest =>
    intro w hbottom hlength
    rw [hrows, hoffset]
    exact w.getLast?_of_length_le (hbottom ▸ hlength)
  case settled =>
    intro w w' hheight hsettled
    have hsame : offset w' = offset w := by
      rw [hoffset] at hsettled
      rw [hoffset, hoffset, Window.clamp_eq_of_settled hheight hsettled]
    refine ⟨hsame, ?_⟩
    rw [hrows, hrows, hsame, Window.visible_eq_of_height_eq hheight]

/-- Numbering the rows of a part from its place on is numbering them all. -/
theorem map_zipIdx_slice {α β : Type} (f : α × Nat → β) (l : List α) (first n : Nat) :
    (((l.drop first).take n).zipIdx first).map f = ((l.zipIdx.map f).drop first).take n := by
  apply List.ext_getElem?
  intro i
  simp only [List.getElem?_map, List.getElem?_zipIdx, List.getElem?_take, List.getElem?_drop,
    Option.map_map, Nat.zero_add]
  split
  · rfl
  · rfl

namespace TokenPane

/-- One row for each token. -/
def listing (p : TokenPane) : List Row :=
  p.tokens.map row

theorem shown_eq (p : TokenPane) (first n : Nat) :
    p.shown first n = (p.listing.drop first).take n := by
  rw [shown, listing, List.map_take, List.map_drop]

/-- The rows that are handed on to be drawn. -/
def rows (p : TokenPane) (w : Window) : List Row :=
  p.shown (p.offset w) w.visible

theorem windowed (p : TokenPane) :
    Windowed p.listing p.offset p.rows p.draw fun rows w s =>
      Row.drawAll rows w.area.inner.indent (w.frame " Tokens " s) := by
  apply Windowed.of_clamp
  · intro w
    rw [offset, listing, List.length_map]
  · intro w
    exact p.shown_eq _ _
  · intro w s
    rfl

end TokenPane

namespace TreePane

/-- The lines of the nodes of `e`, whose root is node `n` at distance `depth` from the top,
each before those of its operands. -/
def listingFrom (p : TreePane) (depth n : Nat) (e : Expr) : List Line :=
  match e with
  | .literal .. => [p.line ⟨e, depth⟩ n]
  | .binary _ left right _ =>
    p.line ⟨e, depth⟩ n ::
      (p.listingFrom (depth + 1) (n + 1) left ++
        p.listingFrom (depth + 1) (n + 1 + left.size) right)

theorem listingFrom_eq (p : TreePane) (depth n : Nat) (e : Expr) :
    p.listingFrom depth n e =
      ((e.entries depth).zipIdx n).map fun (entry, i) => p.line entry i := by
  induction e generalizing depth n with
  | literal => rfl
  | binary op left right l ihl ihr =>
      simp only [listingFrom, Expr.entries, ihl, ihr, List.zipIdx_cons, List.zipIdx_append,
        List.map_cons, List.map_append, Expr.length_entries]

theorem listingFrom_eq_map_outline {p : TreePane} {e : Expr} (h : p.outline = e.outline) :
    p.listingFrom 0 0 e = p.outline.toList.zipIdx.map fun (entry, i) => p.line entry i := by
  rw [listingFrom_eq, h, Expr.toList_outline]

theorem shown_eq {p : TreePane} {e : Expr} (h : p.outline = e.outline) (first n : Nat) :
    p.shown first n = ((p.listingFrom 0 0 e).drop first).take n := by
  rw [listingFrom_eq_map_outline h, shown, ← map_zipIdx_slice, Array.toList_extract,
    List.extract_eq_take_drop, Nat.add_sub_cancel_left]

/-- The lines that are handed on to be drawn. -/
def rows (p : TreePane) (w : Window) : List Line :=
  p.shown (p.offset w) w.visible

theorem windowed {p : TreePane} {e : Expr} (h : p.outline = e.outline) :
    Windowed (p.listingFrom 0 0 e) p.offset p.rows p.draw fun lines w s =>
      Paragraph.draw { lines } (w.inner s) (w.frame " Tree " s) := by
  apply Windowed.of_clamp
  · intro w
    rw [offset, listingFrom_eq_map_outline h, List.length_map, List.length_zipIdx,
      Array.length_toList]
  · intro w
    exact shown_eq h _ _
  · intro w s
    rfl

end TreePane

namespace TracePane

/-- One row for each reduction, and one for the error. -/
def listing (p : TracePane) : List Row :=
  (p.reductions.zipIdx.map fun (r, i) => p.reductionRow r i) ++ p.error.toList.map errorRow

theorem length_listing (p : TracePane) : p.listing.length = p.total := by
  simp [listing, total]

/-- The error follows the last reduction as the next row of the listing, if the window does
not begin behind it. -/
theorem shown_eq {p : TracePane} {first : Nat} (h : first ≤ p.reductions.length) (n : Nat) :
    p.shown first n = (p.listing.drop first).take n := by
  have hfirst : first ≤ (p.reductions.zipIdx.map fun (r, i) => p.reductionRow r i).length := by
    simpa using h
  have herror : (p.error.toList.map errorRow).length ≤ 1 := by
    rw [List.length_map]
    exact Option.length_toList_le
  simp only [shown, listing, map_zipIdx_slice, List.drop_append_of_le_length hfirst,
    List.take_append, List.length_take]
  generalize (p.reductions.zipIdx.map fun (r, i) => p.reductionRow r i).drop first = rows
  split
  · have hroom : (p.error.toList.map errorRow).length ≤ n - rows.length := by omega
    rw [List.take_of_length_le hroom, List.take_of_length_le (by omega)]
  · have hfull : n - rows.length = 0 := by omega
    rw [hfull, List.take_zero, List.append_nil]

theorem isEmpty_iff (p : TracePane) :
    p.isEmpty = true ↔ p.reductions = [] ∧ p.error = none := by
  simp [isEmpty]

theorem offset_le {p : TracePane} (h : ¬ p.isEmpty = true) (w : Window) :
    p.offset w ≤ p.reductions.length := by
  have hclamp := w.clamp_le p.total
  have hpos := w.visible_pos
  have herror : p.error.toList.length ≤ 1 := Option.length_toList_le
  rw [offset, if_neg h]
  unfold total at hclamp ⊢
  omega

/-- The rows that are handed on to be drawn, if there are any at all. -/
def rows (p : TracePane) (w : Window) : List Row :=
  p.shown (p.offset w) w.visible

theorem windowed {p : TracePane} (h : ¬ p.isEmpty = true) :
    Windowed p.listing p.offset p.rows p.draw fun rows w s =>
      Row.drawAll rows w.area.inner.indent (w.frame " Trace " s) := by
  apply Windowed.of_clamp
  · intro w
    rw [offset, if_neg h, length_listing]
  · intro w
    exact shown_eq (offset_le h w) _
  · intro w s
    exact if_neg h

end TracePane

/-- The panes for the tree, the tokens and the trace show what their windows have of the
full listing. Only a trace without rows leaves its window as it is. -/
theorem panes_show_slice :
    (∀ (e : Expr) (values : Resolved) (current : Option Nat),
      let p : TreePane := ⟨e.outline, values, current⟩
      Windowed (p.listingFrom 0 0 e) p.offset p.rows p.draw fun lines w s =>
        Paragraph.draw { lines } (w.inner s) (w.frame " Tree " s)) ∧
      (∀ p : TokenPane, Windowed p.listing p.offset p.rows p.draw fun rows w s =>
        Row.drawAll rows w.area.inner.indent (w.frame " Tokens " s)) ∧
      ∀ p : TracePane,
        (¬ (p.reductions = [] ∧ p.error = none) →
          Windowed p.listing p.offset p.rows p.draw fun rows w s =>
            Row.drawAll rows w.area.inner.indent (w.frame " Trace " s)) ∧
        (p.reductions = [] ∧ p.error = none → ∀ w, p.offset w = w.offset) := by
  refine ⟨fun e values current => TreePane.windowed rfl, TokenPane.windowed, fun p => ⟨?_, ?_⟩⟩
  · intro h
    rw [← p.isEmpty_iff] at h
    exact TracePane.windowed h
  · intro h w
    rw [← p.isEmpty_iff] at h
    exact if_pos h

/-- The trace of `1/(2-2)`: a difference, and the division that fails. -/
def stoppedTrace : TracePane :=
  { reductions := [⟨2, .sub, 2, 2, 0, ⟨3, 6⟩, ⟨4, 1, 5⟩⟩]
    error := some (.divisionByZero ⟨1, 1, 2⟩) }

/-- At the bottom of a trace with room for one row there is only the error. -/
theorem panes_show_slice_stoppedTrace :
    ¬ (stoppedTrace.reductions = [] ∧ stoppedTrace.error = none) ∧
      stoppedTrace.rows ⟨⟨0, 0, 40, 3⟩, false, Scroll.bottom⟩ =
        [TracePane.errorRow (.divisionByZero ⟨1, 1, 2⟩)] := by
  have hrows : ¬ (stoppedTrace.reductions = [] ∧ stoppedTrace.error = none) := by
    simp [stoppedTrace]
  refine ⟨hrows, ?_⟩
  rw [((panes_show_slice.2.2 stoppedTrace).1 hrows).shown]
  rfl

end StepCalc
