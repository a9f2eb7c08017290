/-!
# Colours and styles

A cell always has both colours; a style may leave some attributes open, and
painting with it changes only those that it sets.
-/

namespace StepCalc

inductive Color where
  | reset
  | black
  | rgb (red green blue : Nat)
  deriving DecidableEq, Repr

/-- Two lower case hexadecimal digits. -/
def Color.hexByte (n : Nat) : List Char :=
  [Nat.digitChar (n / 16 % 16), Nat.digitChar (n % 16)]

def Color.name : Color → String
  | reset => "reset"
  | black => "black"
  | rgb r g b => String.ofList ('#' :: (hexByte r ++ hexByte g ++ hexByte b))

structure Style where
  fg : Option Color := none
  bg : Option Color := none
  bold : Bool := false
  deriving DecidableEq, Repr

namespace Style

def plain : Style := {}

def color (c : Color) : Style := { fg := some c }

def strong (s : Style) : Style := { s with bold := true }

def onto (s : Style) (c : Color) : Style := { s with bg := some c }

/-- `s` overridden by whatever `t` sets. -/
def patch (s t : Style) : Style :=
  ⟨t.fg.or s.fg, t.bg.or s.bg, s.bold || t.bold⟩

@[simp] theorem plain_patch (s : Style) : plain.patch s = s := by
  simp [patch, plain]

@[simp] theorem patch_plain (s : Style) : s.patch plain = s := by
  simp [patch, plain]

end Style

end StepCalc
