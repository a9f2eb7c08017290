/-!
# Places in a source text

A location counts characters from the start of the text and also gives the line
and column a reader would name. Only a line feed starts a new line; every other
character, whatever its display width, moves one column to the right.
-/

namespace StepCalc

/-- A place in a source text: `offset` counts characters from zero, `line` and
`column` count from one. -/
structure Location where
  offset : Nat
  line : Nat
  column : Nat
  deriving DecidableEq, Repr, Inhabited

namespace Location

/-- The first place of every text. -/
def start : Location := ⟨0, 1, 1⟩

/-- The place just after the character `c` that stands at `l`. -/
def advance (l : Location) (c : Char) : Location :=
  if c = '\n' then ⟨l.offset + 1, l.line + 1, 1⟩ else ⟨l.offset + 1, l.line, l.column + 1⟩

/-- The place just after the characters `cs` that begin at `l`. -/
def after (l : Location) (cs : List Char) : Location :=
  cs.foldl advance l

/-- The wording used in messages. -/
def describe (l : Location) : String :=
  s!"line {l.line}, column {l.column}"

@[simp] theorem advance_offset (l : Location) (c : Char) :
    (l.advance c).offset = l.offset + 1 := by
  unfold advance
  split <;> rfl

@[simp] theorem after_nil (l : Location) : l.after [] = l := rfl

@[simp] theorem after_cons (l : Location) (c : Char) (cs : List Char) :
    l.after (c :: cs) = (l.advance c).after cs := rfl

theorem after_append (l : Location) (cs ds : List Char) :
    l.after (cs ++ ds) = (l.after cs).after ds :=
  List.foldl_append

@[simp] theorem after_offset (l : Location) (cs : List Char) :
    (l.after cs).offset = l.offset + cs.length := by
  induction cs generalizing l with
  | nil => rfl
  | cons c cs ih => simp only [after_cons, ih, advance_offset, List.length_cons]; omega

end Location

/-- A half-open range of character offsets. -/
structure Span where
  start : Nat
  stop : Nat
  deriving DecidableEq, Repr, Inhabited

/-- Whether the offset `o` lies in the range. -/
def Span.contains (s : Span) (o : Nat) : Bool :=
  decide (s.start ≤ o) && decide (o < s.stop)

end StepCalc
