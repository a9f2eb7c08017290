/-!
# Plain text

What is left of a text when the sequences that control a terminal are taken out of
it, and with them the control characters that are no blanks. A sequence begins with
an escape character, and an escape, cancel or substitute character ends it anywhere.
-/

namespace StepCalc.Text

/-- Where in a control sequence a text is. -/
inductive Sequence where
  | none
  | escape
  /-- After an escape character and marks that leave the sequence open. -/
  | marks
  /-- Parameters up to a final letter. -/
  | parameters
  /-- A command for the system, up to a bell. -/
  | command
  /-- The head of a string for the device, up to a letter. -/
  | head
  /-- A string that only a terminator ends. -/
  | string
  deriving DecidableEq, Repr

/-- Tabs, line feeds, form feeds and carriage returns. -/
def isBlankControl (c : Char) : Bool :=
  c = '\t' || c = '\n' || c.toNat = 0x0C || c = '\r'

/-- Whether the code of a character is at least `first` and at most a tilde. -/
def isAsciiFrom (first : Nat) (c : Char) : Bool :=
  decide (first ≤ c.toNat) && decide (c.toNat ≤ 0x7E)

/-- Whether the encoding of a character has a byte that terminates strings. -/
def endsString (c : Char) : Bool :=
  (String.utf8EncodeChar c).any (· == 0x9C)

namespace Sequence

/-- What the character after the escape character begins. -/
def opened (c : Char) : Sequence :=
  if c.toNat < 0x30 then .marks
  else if c = '[' then .parameters
  else if c = ']' then .command
  else if c = 'P' then .head
  else if c = 'X' || c = '^' || c = '_' then .string
  else .none

/-- Goes over a character and says whether it is kept. -/
def step (q : Sequence) (c : Char) : Sequence × Bool :=
  if c.toNat = 0x1B then (.escape, false)
  else if c.toNat = 0x18 || c.toNat = 0x1A then (.none, false)
  else
    match q with
    | .none => (.none, isBlankControl c || isAsciiFrom 0x20 c || decide (0x80 ≤ c.toNat))
    | .escape =>
      if isBlankControl c then (.none, true)
      else if isAsciiFrom 0x20 c then (opened c, false)
      else (q, false)
    | .marks =>
      if isBlankControl c then (.none, true)
      else if isAsciiFrom 0x30 c then (.none, false)
      else (q, false)
    | .parameters =>
      if isBlankControl c then (.none, true)
      else if isAsciiFrom 0x40 c then (.none, false)
      else (q, false)
    | .command => (if c.toNat = 0x07 then .none else q, false)
    | .head => (if isAsciiFrom 0x40 c then .string else q, false)
    | .string => (if endsString c then .none else q, false)

end Sequence

/-- The characters that are kept, after `q`. -/
def plainFrom (q : Sequence) : List Char → List Char
  | [] => []
  | c :: rest =>
    let (q, kept) := q.step c
    if kept then c :: plainFrom q rest else plainFrom q rest

def plain (s : String) : String :=
  String.ofList (plainFrom .none s.toList)

end StepCalc.Text
