import StepCalc.Expr.Parser

/-!
# Reading without recursion

A reading state holds everything begun and not yet finished: for each open group the
left operand that waits at either level, and the operand just completed, if one stands
at the end of what has been read.

`Reading.shift?` takes one token if the state allows it, and `Reading.advance` takes
tokens as long as it can, so reading is a single pass over the tokens that never goes
back. The state in which it stops says whether an expression is complete and, if not,
what is wrong with the token that stopped it, and how many groups a parser that gives
up there leaves counted. `Parser.read_eq` shows that the recursive descent does the same.
-/

namespace StepCalc

/-- A left operand with the operator after it. -/
structure Pending where
  operand : Expr
  op : Op
  location : Location
  deriving DecidableEq, Repr

/-- Gives `right` to the waiting operator, if there is one. -/
def Pending.apply : Option Pending → Expr → Expr
  | none, right => right
  | some p, right => .binary p.op p.operand right p.location

/-- A group that is still open: what waits for a term and what waits for a factor. -/
structure Group where
  sum : Option Pending
  product : Option Pending
  deriving DecidableEq, Repr

namespace Group

def empty : Group := ⟨none, none⟩

/-- The term that ends with the factor `e`. -/
def term (g : Group) (e : Expr) : Expr :=
  Pending.apply g.product e

/-- The whole group, ending with the factor `e`. -/
def close (g : Group) (e : Expr) : Expr :=
  Pending.apply g.sum (g.term e)

/-- The group after the factor `e` and an operator. -/
def extend (g : Group) (e : Expr) (op : Op) (location : Location) : Group :=
  match op with
  | .add | .sub => ⟨some ⟨g.close e, op, location⟩, none⟩
  | .mul | .div => ⟨g.sum, some ⟨g.term e, op, location⟩⟩

end Group

/-- Whether an operator outside all groups continues what is read. -/
def Goal.admits : Goal → Op → Bool
  | factor, _ => false
  | term, .mul | term, .div => true
  | term, .add | term, .sub => false
  | expression, _ => true

/-- How far reading has come. `outer` lists the groups around the current one,
innermost first, and `operand` is the factor just completed. -/
structure Reading where
  outer : List Group
  here : Group
  operand : Option Expr
  deriving DecidableEq, Repr

namespace Reading

def start : Reading := ⟨[], .empty, none⟩

/-- The state after `t`, or nothing if `t` cannot come next. The `base` groups
already open count towards the nesting limit. -/
def shift? (goal : Goal) (base : Nat) (s : Reading) (t : Token) : Option Reading :=
  match s.operand with
  | none =>
    match t.lexeme with
    | .number digits =>
      let n := Nat.ofDigitChars 10 digits 0
      if n ≤ Value.largest then
        some { s with operand := some (.literal (.ofNat n) t.location digits.length) }
      else none
    | .openParen =>
      if base + s.outer.length < ParseError.maxNesting then some ⟨s.here :: s.outer, .empty, none⟩
      else none
    | _ => none
  | some e =>
    match t.lexeme with
    | .operator op =>
      if s.outer.isEmpty && !goal.admits op then none
      else some ⟨s.outer, s.here.extend e op t.location, none⟩
    | .closeParen =>
      match s.outer with
      | [] => none
      | g :: outer => some ⟨outer, g, some (s.here.close e)⟩
    | _ => none

/-- Takes tokens until one does not fit; gives the state and the tokens left. -/
def advance (goal : Goal) (base : Nat) (s : Reading) : List Token → Reading × List Token
  | [] => (s, [])
  | t :: ts =>
    match s.shift? goal base t with
    | some s' => s'.advance goal base ts
    | none => (s, t :: ts)

/-- The expression read, if nothing is left open. -/
def result? (s : Reading) : Option Expr :=
  match s.outer, s.operand with
  | [], some e => some (s.here.close e)
  | _, _ => none

/-- What is missing before the next token. -/
def expected (s : Reading) : Expected :=
  match s.operand with
  | none => .operand
  | some _ => if s.outer.isEmpty then .continuation else .closeParen

/-- Why `t`, which does not fit, is wrong. -/
def blame (s : Reading) (t : Token) : ParseError :=
  match s.operand, t.lexeme with
  | _, .invalid c => .unexpectedCharacter c t.location
  | none, .number digits => .literalOutOfRange digits t.location
  | none, .openParen => .nestingTooDeep t.location
  | _, x => .unexpectedToken s.expected x.kind t.location

/-- The groups that an abandoned reading leaves open. A group whose closing
parenthesis is missing counts as closed. -/
def abandoned (s : Reading) : Nat :=
  match s.operand with
  | none => s.outer.length
  | some _ => s.outer.length - 1

/-- A place in a group where a word of `goal` may begin. -/
def Ready : Goal → Group → Prop
  | .factor, _ => True
  | .term, here => here.product = none
  | .expression, here => here = .empty

/-- The state after a word of `goal` with tree `e` that begins in `here`. -/
def Completed (outer : List Group) (here : Group) (e : Expr) : Goal → Reading → Prop
  | .factor, s => s = ⟨outer, here, some e⟩
  | .term, s => ∃ product f, s = ⟨outer, ⟨here.sum, product⟩, some f⟩ ∧
      Pending.apply product f = e
  | .expression, s => ∃ here f, s = ⟨outer, here, some f⟩ ∧ here.close f = e

theorem advance_cons_of_some {goal : Goal} {base : Nat} {s s' : Reading} {t : Token}
    {ts : List Token} (h : s.shift? goal base t = some s') :
    s.advance goal base (t :: ts) = s'.advance goal base ts := by
  simp [advance, h]

theorem advance_cons_of_none {goal : Goal} {base : Nat} {s : Reading} {t : Token}
    {ts : List Token} (h : s.shift? goal base t = none) :
    s.advance goal base (t :: ts) = (s, t :: ts) := by
  simp [advance, h]

end Reading

end StepCalc
