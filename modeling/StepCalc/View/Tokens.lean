import StepCalc.Token.Basic
import StepCalc.View.Window

/-!
# The token pane

One row for each token: kind, lexeme and place.
-/

namespace StepCalc

structure TokenPane where
  tokens : List Token
  deriving DecidableEq, Repr

namespace TokenPane

@[inline] def offset (p : TokenPane) (w : Window) : Nat :=
  w.clamp p.tokens.length

def color : Kind → Color
  | .number => Palette.number
  | .invalid => Palette.error
  | .endOfInput => Palette.comment
  | .operator _ | .openParen | .closeParen => Palette.operator

def row (t : Token) : Row :=
  let kind := Text.padRight 13 t.kind.name
  let lexeme := Text.padRight 8 t.lexeme.text
  { text := s!"{kind} {lexeme} @{t.location.line}:{t.location.column}"
    style := .color (color t.kind) }

/-- The rows of `n` tokens, from token number `first` on. -/
def shown (p : TokenPane) (first n : Nat) : List Row :=
  ((p.tokens.drop first).take n).map row

def draw (p : TokenPane) (w : Window) (s : Screen) : Screen :=
  Row.drawAll (p.shown (p.offset w) w.visible) w.area.inner.indent (w.frame " Tokens " s)

end TokenPane

end StepCalc
