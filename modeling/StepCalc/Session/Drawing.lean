import StepCalc.Session.Event

/-!
# Drawing a session

The last row of the screen is the status bar. Above it the expression and the
trace are in the left column, the tree and the tokens in the right one. Drawing
also settles how far each pane is scrolled.
-/

namespace StepCalc

/-- Where the panes are. -/
structure Layout where
  source : Area
  trace : Area
  tree : Area
  tokens : Area
  status : Area
  deriving DecidableEq, Repr

def Layout.ofArea (a : Area) : Layout :=
  let (panes, status) := a.splitLastRow
  let (left, right) := panes.splitColumns 60
  let (source, trace) := left.splitRows 45
  let (tree, tokens) := right.splitRows 60
  { source, trace, tree, tokens, status }

namespace Session

@[inline] def reduction? (s : Session) : Option Reduction :=
  s.replay.snapshot?.bind (·.reduction)

@[inline] def expressionPane (s : Session) : ExpressionPane :=
  { source := s.source
    highlight := s.reduction?.map (·.span)
    text := s.replay.text
    result := s.replay.result? }

/-- The error is part of the trace once the history is at its end. -/
@[inline] def tracePane (s : Session) : TracePane :=
  { reductions := s.replay.reductions
    error := if s.replay.atEnd then s.replay.failure? else none }

@[inline] def treePane (s : Session) : TreePane :=
  { outline := s.outline, values := s.replay.values, current := s.reduction?.map (·.node) }

@[inline] def tokenPane (s : Session) : TokenPane :=
  { tokens := s.tokens }

def statusBar (s : Session) : StatusBar :=
  { message := s.message
    position := s.replay.position
    total := s.replay.total
    failed := s.replay.failure?.isSome
    playing := s.playing }

@[inline] def sourceWindow (s : Session) (a : Area) : Window :=
  ⟨a, s.focus = .source, s.scroll.source⟩

@[inline] def traceWindow (s : Session) (a : Area) : Window :=
  ⟨a, s.focus = .trace, s.scroll.trace⟩

@[inline] def treeWindow (s : Session) (a : Area) : Window :=
  ⟨a, s.focus = .tree, s.scroll.tree⟩

@[inline] def tokenWindow (s : Session) (a : Area) : Window :=
  ⟨a, s.focus = .tokens, s.scroll.tokens⟩

/-- How far the panes are scrolled after they have been drawn in `a`. -/
def settle (s : Session) (a : Area) : Session :=
  let l := Layout.ofArea a
  { s with
    scroll :=
      { source := s.expressionPane.offset (s.sourceWindow l.source)
        trace := s.tracePane.offset (s.traceWindow l.trace)
        tree := s.treePane.offset (s.treeWindow l.tree)
        tokens := s.tokenPane.offset (s.tokenWindow l.tokens) } }

/-- Draws everything on `screen`. -/
def draw (s : Session) (screen : Screen) : Screen :=
  let l := Layout.ofArea screen.area
  let screen := s.expressionPane.draw (s.sourceWindow l.source) screen
  let screen := s.tracePane.draw (s.traceWindow l.trace) screen
  let screen := s.treePane.draw (s.treeWindow l.tree) screen
  let screen := s.tokenPane.draw (s.tokenWindow l.tokens) screen
  s.statusBar.draw l.status screen

/-- One turn of the session on a screen of the size of `a`: draw, let a due step
happen, take an event, draw, and unless the session is over let a step that the
event made due happen and draw again. -/
def turn (s : Session) (a : Area) (due : Bool) (event : Event) : Session :=
  let s := ({ s with due, quit := false }.settle a).play
  let s := (s.handle event).settle a
  if s.quit then s else s.play.settle a

end Session

end StepCalc
